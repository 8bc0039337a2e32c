import Backtrack.Proofs.Drive

/-! What generators yield. A generator that is resumed and does not end yields a program and goes on as
another one; which one depends on what it is sent, and where code of the host has a part in it the program
is that code's choice. -/

namespace Backtrack

variable {κ τ ω : Type} {lacking : Bool}

namespace Frame

/-- The generator may yield the value when it is sent the other one, and goes on as the last generator. -/
inductive Yields : Frame κ τ → Value κ → Value κ → Frame κ τ → Prop where
  | map (p : Program κ) (f : Mapper κ) : Yields (.fresh (.map p f)) .null (.program p) (.mapped f)
  | flatMap (p : Program κ) (f : Callable κ) :
      Yields (.fresh (.flatMap p f)) .null (.program p) (.flatMapped f)
  | bind (p : Program κ) (f : Mapper κ) : Yields (.fresh (.bind p f)) .null (.program p) (.bound f)
  | sequence (p : Program κ) (rest : List (Program κ)) :
      Yields (.fresh (.sequence (p :: rest))) .null (.program p) (.sequenced rest [])
  | traverse (item : Value κ) (rest : List (Value κ)) (f : Callable κ) (q : Program κ) :
      Yields (.fresh (.traverse (item :: rest) f)) .null (.program q) (.traversed rest f [])
  | altOr (first second : Program κ) :
      Yields (.fresh (.altOr first second)) .null (.program .get) (.altSnapshot first second)
  | abort (failure : Value κ) :
      Yields (.fresh (.abort failure)) .null (.program (.modify .raiseFlag)) (.aborting failure)
  | begun (f : DoFunction κ) (args : List (Value κ)) (q : Program κ) (t : τ) :
      Yields (.fresh (.body f args)) .null (.program q) (.body f.name t)
  | started (code : κ) (args : List (Value κ)) (value : Value κ) (t : τ) :
      Yields (.fresh (.task code args)) .null value (.task t)
  | task (t : τ) (sent value : Value κ) (rest : τ) : Yields (.task t) sent value (.task rest)
  | flatMapped (f : Callable κ) (sent : Value κ) (q : Program κ) :
      Yields (.flatMapped f) sent (.program q) .relay
  | bound (f : Mapper κ) (sent : Value κ) (q : Program κ) : Yields (.bound f) sent (.program q) .relay
  | sequenced (p : Program κ) (rest : List (Program κ)) (collected : List (Value κ))
      (sent value : Value κ) :
      Yields (.sequenced (p :: rest) collected) sent (.program p) (.sequenced rest (value :: collected))
  | traversed (item : Value κ) (rest : List (Value κ)) (f : Callable κ) (collected : List (Value κ))
      (sent value : Value κ) (q : Program κ) :
      Yields (.traversed (item :: rest) f collected) sent (.program q)
        (.traversed rest f (value :: collected))
  | altSnapshot (first second : Program κ) (sent : Value κ) :
      Yields (.altSnapshot first second) sent (.program first) (.altLeft second sent)
  | altLeft (second : Program κ) (snapshot left : Value κ) : (∀ value, left ≠ .ok value) →
      Yields (.altLeft second snapshot) left (.program .get) (.altFlag second snapshot left)
  | altFlag (second : Program κ) (snapshot left sent : Value κ) :
      Yields (.altFlag second snapshot left) sent (.program (.put snapshot)) (.altRestored second left)
  | altRestored (second : Program κ) (left sent : Value κ) :
      Yields (.altRestored second left) sent (.program second) (.altRight left)
  | body (name : Option String) (t : τ) (sent : Value κ) (q : Program κ) (rest : τ) :
      Yields (.body name t) sent (.program q) (.body name rest)

variable {host : Host κ τ ω lacking} {frame rest : Frame κ τ} {sent value : Value κ} {world final : World ω}

theorem sequenceNext_yielded {collected : List (Value κ)} {ps : List (Program κ)}
    (hYielded : sequenceNext collected ps world = .ok (.yielded value rest) final) :
    ∃ p others, ps = p :: others ∧ value = .program p ∧ rest = .sequenced others collected := by
  cases ps with
  | nil => cases hYielded
  | cons p others =>
      cases hYielded
      exact ⟨p, others, rfl, rfl, rfl⟩

theorem yieldAlternative_yielded {role : OperandRole} {given : Value κ} {left : Frame κ τ}
    (hYielded : yieldAlternative role left given world = .ok (.yielded value rest) final) :
    ∃ q, value = .program q ∧ rest = left := by
  cases given with
  | alternative mark q =>
      cases hYielded
      exact ⟨q, rfl, rfl⟩
  | _ => cases hYielded

theorem traverseNext_yielded {f : Callable κ} {collected items : List (Value κ)}
    (hYielded : traverseNext host f collected items world = .ok (.yielded value rest) final) :
    ∃ item others q, items = item :: others ∧ value = .program q ∧
      rest = .traversed others f collected := by
  cases items with
  | nil => cases hYielded
  | cons item others =>
      obtain ⟨_, _, _, hChosen⟩ := Exec.bind_eq_ok.mp hYielded
      obtain ⟨q, rfl, rfl⟩ := yieldAlternative_yielded hChosen
      exact ⟨item, others, q, rfl, rfl, rfl⟩

theorem bodyNext_yielded {name : Option String} {next : Step κ τ}
    (hYielded : bodyNext host name next world = .ok (.yielded value rest) final) :
    ∃ q t, value = .program q ∧ rest = .body name t := by
  cases next with
  | returned result => cases hYielded
  | yielded given t =>
      cases given with
      | alternative mark q =>
          cases hYielded
          exact ⟨q, t, rfl, rfl⟩
      | _ =>
          obtain ⟨_, _, _, hFailed⟩ := Exec.bind_eq_ok.mp hYielded
          cases hFailed

theorem bodySend_yielded {name : Option String} {t : τ}
    (hYielded : bodySend host name t sent world = .ok (.yielded value rest) final) :
    ∃ q next, value = .program q ∧ rest = .body name next := by
  revert hYielded
  unfold bodySend
  split
  · intro hClosing
    obtain ⟨_, _, _, hFinished⟩ := Exec.bind_eq_ok.mp hClosing
    cases hFinished
  · cases sent.value? with
    | ok given =>
        intro hResuming
        obtain ⟨_, _, _, hContinued⟩ := Exec.bind_eq_ok.mp hResuming
        exact bodyNext_yielded hContinued
    | error cause =>
        intro hClosing
        obtain ⟨_, _, _, hFailed⟩ := Exec.bind_eq_ok.mp hClosing
        cases hFailed

theorem onSuccess_yielded {continuation : Value κ → Exec κ ω (Step κ (Frame κ τ))}
    (hYielded : onSuccess sent continuation world = .ok (.yielded value rest) final) :
    ∃ given, continuation given world = .ok (.yielded value rest) final := by
  unfold onSuccess at hYielded
  split at hYielded
  · cases hYielded
  · obtain ⟨given, _, hTaken, hContinued⟩ := Exec.bind_eq_ok.mp hYielded
    obtain ⟨_, rfl⟩ := Exec.demand_eq_ok.mp hTaken
    exact ⟨given, hContinued⟩

theorem taskNext_yielded {x : Exec κ ω (Step κ τ)}
    (hYielded : (taskNext <$> x) world = .ok (.yielded value rest) final) : ∃ t, rest = .task t := by
  obtain ⟨next, _, hTaken⟩ := Exec.map_eq_ok.mp hYielded
  cases next with
  | returned result => cases hTaken
  | yielded given t =>
      cases hTaken
      exact ⟨t, rfl⟩

theorem begin_yields {r : Recipe κ} (hYielded : begin host r world = .ok (.yielded value rest) final) :
    (.fresh r : Frame κ τ).Yields .null value rest := by
  cases r with
  | map p f =>
      cases hYielded
      exact .map p f
  | flatMap p f =>
      cases hYielded
      exact .flatMap p f
  | bind p f =>
      cases hYielded
      exact .bind p f
  | sequence ps =>
      obtain ⟨p, others, rfl, rfl, rfl⟩ := sequenceNext_yielded hYielded
      exact .sequence p others
  | traverse items f =>
      obtain ⟨item, others, q, rfl, rfl, rfl⟩ := traverseNext_yielded hYielded
      exact .traverse item others f q
  | altOr first second =>
      cases hYielded
      exact .altOr first second
  | abort failure =>
      cases hYielded
      exact .abort failure
  | body f args =>
      obtain ⟨started, _, _, hContinued⟩ := Exec.bind_eq_ok.mp hYielded
      cases started with
      | value given => cases hContinued
      | coroutine t =>
          obtain ⟨_, _, _, hProceeded⟩ := Exec.bind_eq_ok.mp hContinued
          obtain ⟨q, t, rfl, rfl⟩ := bodyNext_yielded hProceeded
          exact .begun f args q t
  | task code args =>
      obtain ⟨_, _, _, hContinued⟩ := Exec.bind_eq_ok.mp hYielded
      obtain ⟨t, rfl⟩ := taskNext_yielded hContinued
      exact .started code args value t

theorem yields_of_resume (hResumed : frame.resume host sent world = .ok (.yielded value rest) final) :
    frame.Yields sent value rest := by
  cases frame with
  | fresh r =>
      cases sent with
      | null => exact begin_yields hResumed
      | _ => cases hResumed
  | task t =>
      obtain ⟨next, rfl⟩ := taskNext_yielded hResumed
      exact .task t sent value next
  | mapped f =>
      obtain ⟨_, _, _, hFinished⟩ := Exec.bind_eq_ok.mp hResumed
      cases hFinished
  | flatMapped f =>
      obtain ⟨given, _, _, hChosen⟩ := Exec.bind_eq_ok.mp hResumed
      cases given with
      | program q =>
          cases hChosen
          exact .flatMapped f sent q
      | _ => cases hChosen
  | bound f =>
      obtain ⟨_, hContinued⟩ := onSuccess_yielded hResumed
      obtain ⟨_, _, _, hChosen⟩ := Exec.bind_eq_ok.mp hContinued
      obtain ⟨q, rfl, rfl⟩ := yieldAlternative_yielded hChosen
      exact .bound f sent q
  | relay => cases hResumed
  | sequenced ps collected =>
      obtain ⟨given, hContinued⟩ := onSuccess_yielded hResumed
      obtain ⟨p, others, rfl, rfl, rfl⟩ := sequenceNext_yielded hContinued
      exact .sequenced p others collected sent given
  | traversed items f collected =>
      obtain ⟨given, hContinued⟩ := onSuccess_yielded hResumed
      obtain ⟨item, others, q, rfl, rfl, rfl⟩ := traverseNext_yielded hContinued
      exact .traversed item others f collected sent given q
  | altSnapshot first second =>
      cases hResumed
      exact .altSnapshot first second sent
  | altLeft second snapshot =>
      cases sent with
      | ok success => cases hResumed
      | _ =>
          cases hResumed
          exact .altLeft second snapshot _ nofun
  | altFlag second snapshot left =>
      obtain ⟨⟨user, aborted⟩, _, _, hTold⟩ := Exec.bind_eq_ok.mp hResumed
      dsimp only at hTold
      split at hTold
      · obtain ⟨_, _, _, hFinished⟩ := Exec.bind_eq_ok.mp hTold
        cases hFinished
      · obtain ⟨_, _, _, hRestores⟩ := Exec.bind_eq_ok.mp hTold
        cases hRestores
        exact .altFlag second snapshot left sent
  | altRestored second left =>
      cases hResumed
      exact .altRestored second left sent
  | altRight left =>
      cases sent with
      | ok success => cases hResumed
      | _ =>
          obtain ⟨_, _, _, hFinished⟩ := Exec.bind_eq_ok.mp hResumed
          cases hFinished
  | aborting failure => cases hResumed
  | body name t =>
      obtain ⟨q, next, rfl, rfl⟩ := bodySend_yielded hResumed
      exact .body name t sent q next

end Frame

namespace Machine

variable {host : Host κ τ ω lacking} {m next : Machine κ τ} {world after : World ω}

theorem yields_of_step {q : Program κ} (hStepped : m.step host world = .ok (.inl next) after)
    (hTaken : next.mode = .take q) :
    ∃ sent top below rest, m.mode = .deliver sent ∧ m.stack = top :: below ∧
      next.stack = rest :: below ∧ top.Yields sent (.program q) rest := by
  obtain ⟨mode, state, stack, steps⟩ := m
  cases mode with
  | take p =>
      obtain ⟨value, hDelivers⟩ := step_take_mode hStepped
      rw [hDelivers] at hTaken
      cases hTaken
  | deliver sent =>
      cases stack with
      | nil => cases hStepped
      | cons top below =>
          rcases step_deliver_cases hStepped with ⟨value, _, ⟨⟩⟩ | ⟨p, rest, hResumed, ⟨⟩⟩
          · cases hTaken
          · cases hTaken
            exact ⟨sent, top, below, rest, rfl, rfl, rfl, Frame.yields_of_resume hResumed⟩

theorem forall_stack_of_step {Holds : Frame κ τ → Prop} (hAll : ∀ frame ∈ m.stack, Holds frame)
    (hStepped : m.step host world = .ok (.inl next) after)
    (hFresh : ∀ mark r, m.mode = .take (.generator mark r) → Holds (.fresh r))
    (hYields : ∀ sent top below q rest, m.mode = .deliver sent → m.stack = top :: below →
      next.mode = .take q → next.stack = rest :: below → top.Yields sent (.program q) rest →
      Holds rest) : ∀ frame ∈ next.stack, Holds frame := by
  obtain ⟨mode, state, stack, steps⟩ := m
  cases mode with
  | take p =>
      cases p with
      | modify f =>
          obtain ⟨_, _, ⟨⟩⟩ := step_modify_cases hStepped
          exact hAll
      | generator mark r =>
          cases hStepped
          exact List.forall_mem_cons.mpr ⟨hFresh mark r rfl, hAll⟩
      | foreign | foreignEffect => cases hStepped
      | pure | get | put =>
          cases hStepped
          exact hAll
  | deliver sent =>
      cases stack with
      | nil => cases hStepped
      | cons top below =>
          have hBelowHolds := (List.forall_mem_cons.mp hAll).2
          rcases step_deliver_cases hStepped with ⟨value, _, ⟨⟩⟩ | ⟨q, rest, hResumed, ⟨⟩⟩
          · exact hBelowHolds
          · have hRestHolds := hYields _ _ _ q rest rfl rfl rfl rfl (Frame.yields_of_resume hResumed)
            exact List.forall_mem_cons.mpr ⟨hRestHolds, hBelowHolds⟩

end Machine

end Backtrack
