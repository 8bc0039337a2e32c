import Backtrack.Proofs.Public

/-! The configurations of a public run. As long as the flag of the state is the one that the run began
with, every generator on the stack waits for a result or for the answer to its own effect. -/

namespace Backtrack

variable {κ τ ω : Type} {flag : Bool}

namespace Frame

/-- The generator waits for the result of a public alternative in a run that began with the flag. It
has left a left operand behind it only if the flag was clear. -/
inductive Waits (flag : Bool) : Frame κ τ → Prop where
  | bound {f : Mapper κ} : f.Continues → Waits flag (.bound f)
  | relay : Waits flag .relay
  | sequenced {rest : List (Program κ)} (collected : List (Value κ)) :
      (∀ p ∈ rest, p.Public) → Waits flag (.sequenced rest collected)
  | traversed (rest : List (Value κ)) (f : Callable κ) (collected : List (Value κ)) :
      Waits flag (.traversed rest f collected)
  | altLeft {second : Program κ} (user : Value κ) :
      second.Public → Waits flag (.altLeft second (.pair user (.bool flag)))
  | altRight (value : Value κ) (children : List (Value κ)) :
      flag = false → Waits flag (.altRight (.err (.tree value children)))
  | body (name : Option String) (t : τ) : Waits flag (.body name t)

inductive Asks (flag : Bool) : Frame κ τ → Program κ → Prop where
  | primitive {f : Mapper κ} {effect : Program κ} :
      f.Finishes effect → Asks flag (.mapped f) effect
  | abort (failure : Value κ) : Asks flag (.aborting failure) (.modify .raiseFlag)
  | snapshot {first second : Program κ} :
      first.Public → second.Public → Asks flag (.altSnapshot first second) .get
  | reread {second : Program κ} (user value : Value κ) (children : List (Value κ)) :
      second.Public →
        Asks flag (.altFlag second (.pair user (.bool flag)) (.err (.tree value children))) .get
  | restore {second : Program κ} (user value : Value κ) (children : List (Value κ)) :
      second.Public → flag = false →
        Asks flag (.altRestored second (.err (.tree value children)))
          (.put (.pair user (.bool flag)))

inductive Ready (flag : Bool) (user : Value κ) : Frame κ τ → Value κ → Prop where
  | fresh {r : Recipe κ} : r.Public → Ready flag user (.fresh r) .null
  | waiting {frame : Frame κ τ} {result : Value κ} :
      frame.Waits flag → result.IsResult → Ready flag user frame result
  | asked {frame : Frame κ τ} {effect : Program κ} {answer : Value κ} :
      frame.Asks flag effect → effect ≠ .modify .raiseFlag →
      (effect = .get → answer = .pair user (.bool flag)) → Ready flag user frame answer

end Frame

inductive Value.IsPrimitive : Value κ → Prop where
  | success (value : Value κ) : IsPrimitive (.ok value)
  | failure (reason : Value κ) : IsPrimitive (.failWith reason)

theorem Value.IsPrimitive.isResult {value : Value κ} (hPrimitive : value.IsPrimitive) :
    value.IsResult := by
  cases hPrimitive with
  | success value => exact .success value
  | failure reason => exact .failure reason []

inductive Step.Proper {lacking : Bool} (host : Host κ τ ω lacking) (flag : Bool) :
    Step κ (Frame κ τ) → Prop where
  | result {value : Value κ} : value.IsResult → Proper host flag (.returned value)
  | asks {q : Program κ} {rest : Frame κ τ} :
      rest.Asks flag q → Proper host flag (.yielded (.program q) rest)
  | runs {q : Program κ} {rest : Frame κ τ} :
      rest.Waits flag → q.Public → Proper host flag (.yielded (.program q) rest)
  | offered {q : Program κ} {rest : Frame κ τ} :
      rest.Waits flag → rest.FromHost → host.Offers q →
      Proper host flag (.yielded (.program q) rest)

/-- The machine is in a public run whose flag is still the one that the run began with. -/
inductive Machine.Live (flag : Bool) : Machine κ τ → Prop where
  | taking {q : Program κ} {stack : List (Frame κ τ)} (user : Value κ) (steps : Nat) :
      q.Public → (∀ frame ∈ stack, frame.Waits flag) →
      Live flag ⟨.take q, .pair user (.bool flag), stack, steps⟩
  | asking {q : Program κ} {frame : Frame κ τ} {below : List (Frame κ τ)} (user : Value κ)
      (steps : Nat) :
      frame.Asks flag q → (∀ frame ∈ below, frame.Waits flag) →
      Live flag ⟨.take q, .pair user (.bool flag), frame :: below, steps⟩
  | sending {sent user : Value κ} {frame : Frame κ τ} {below : List (Frame κ τ)} (steps : Nat) :
      frame.Ready flag user sent → (∀ frame ∈ below, frame.Waits flag) →
      Live flag ⟨.deliver sent, .pair user (.bool flag), frame :: below, steps⟩
  | done {result : Value κ} (user : Value κ) (steps : Nat) :
      result.IsResult → Live flag ⟨.deliver result, .pair user (.bool flag), [], steps⟩

namespace Frame

variable {lacking : Bool} {host : Host κ τ ω lacking} {frame : Frame κ τ} {user sent value : Value κ}
  {step : Step κ (Frame κ τ)} {world final : World ω}

theorem sequenceNext_proper {collected : List (Value κ)} {ps : List (Program κ)}
    (hAllPublic : ∀ p ∈ ps, p.Public)
    (hResumed : sequenceNext collected ps world = .ok step final) : step.Proper host flag := by
  cases ps with
  | nil =>
      cases hResumed
      exact .result (.success _)
  | cons p rest =>
      obtain ⟨hPublic, hRestPublic⟩ := List.forall_mem_cons.mp hAllPublic
      cases hResumed
      exact .runs (.sequenced collected hRestPublic) hPublic

theorem invoke_public_or_offers {f : Callable κ} {args : List (Value κ)} {mark : Mark} {q : Program κ}
    (hInvoked : host.invoke f args world = .ok (.alternative mark q) final) :
    q.Public ∨ host.Offers q := by
  cases f with
  | code given k => exact .inr (.call hInvoked)
  | doFunction f | method f receiver =>
      cases hInvoked
      exact .inl (Alternative.Public.marked _ (.ofCall f _)).program_public

theorem applyMapper_public_or_offers {f : Mapper κ} (hContinues : f.Continues) {mark : Mark}
    {q : Program κ} (hApplied : host.applyMapper f value world = .ok (.alternative mark q) final) :
    q.Public ∨ host.Offers q := by
  cases hContinues with
  | call f => exact invoke_public_or_offers hApplied
  | injectAfter f =>
      obtain ⟨result, _, _, hInjected⟩ := Exec.bind_eq_ok.mp hApplied
      cases hInjected
      exact .inl (.result (.success result))
  | @mapOver p hPublic =>
      cases value with
      | callable f =>
          cases hApplied
          exact .inl (.generator (.bind hPublic (.injectAfter f)))
      | _ => cases hApplied

theorem yieldAlternative_proper {role : OperandRole} {rest : Frame κ τ} (hWaits : rest.Waits flag)
    (hFromHost : rest.FromHost)
    (hOrigin : ∀ mark q, value = .alternative mark q → q.Public ∨ host.Offers q)
    (hResumed : yieldAlternative role rest value world = .ok step final) :
    step.Proper host flag := by
  cases value with
  | alternative mark p =>
      cases hResumed
      rcases hOrigin mark p rfl with hPublic | hOffers
      · exact .runs hWaits hPublic
      · exact .offered hWaits hFromHost hOffers
  | _ => cases hResumed

theorem traverseNext_proper {f : Callable κ} {collected items : List (Value κ)}
    (hResumed : traverseNext host f collected items world = .ok step final) :
    step.Proper host flag := by
  cases items with
  | nil =>
      cases hResumed
      exact .result (.success _)
  | cons item rest =>
      obtain ⟨produced, after, hInvoked, hYielded⟩ := Exec.bind_eq_ok.mp hResumed
      refine yieldAlternative_proper (.traversed rest f collected) (.traversed rest f collected)
        (fun mark q hSame => ?_) hYielded
      rw [hSame] at hInvoked
      exact invoke_public_or_offers (Exec.sealed_eq_ok.mp hInvoked)

theorem bodyNext_proper {name : Option String} {t : τ} {next : Step κ τ} {before : World ω}
    (hContinued : host.resume t sent before = .ok next world)
    (hResumed : bodyNext host name next world = .ok step final) : step.Proper host flag := by
  cases next with
  | returned value =>
      cases hResumed
      exact .result (.success value)
  | yielded value rest =>
      cases value with
      | alternative mark p =>
          cases hResumed
          exact .offered (.body name rest) (.body name rest) (.resume hContinued)
      | _ =>
          obtain ⟨_, _, _, hFailed⟩ := Exec.bind_eq_ok.mp hResumed
          cases hFailed

theorem begin_proper {r : Recipe κ} (hPublic : r.Public)
    (hResumed : begin host r world = .ok step final) : step.Proper host flag := by
  cases hPublic with
  | primitive hFinishes =>
      cases hResumed
      exact .asks (.primitive hFinishes)
  | abort failure =>
      cases hResumed
      exact .asks (.abort failure)
  | bind hPublic hContinues =>
      cases hResumed
      exact .runs (.bound hContinues) hPublic
  | sequence hAllPublic => exact sequenceNext_proper hAllPublic hResumed
  | traverse items f => exact traverseNext_proper hResumed
  | altOr hFirstPublic hSecondPublic =>
      cases hResumed
      exact .asks (.snapshot hFirstPublic hSecondPublic)
  | body f args =>
      obtain ⟨started, after, _, hContinued⟩ := Exec.bind_eq_ok.mp hResumed
      cases started with
      | value value =>
          cases hContinued
          exact .result (.success value)
      | coroutine t =>
          obtain ⟨next, _, hRan, hProceeded⟩ := Exec.bind_eq_ok.mp hContinued
          exact bodyNext_proper (Exec.sealed_eq_ok.mp hRan) hProceeded

theorem bodySend_proper {name : Option String} {t : τ} {result : Value κ}
    (hResult : result.IsResult)
    (hResumed : bodySend host name t result world = .ok step final) : step.Proper host flag := by
  cases hResult with
  | success value =>
      obtain ⟨next, _, hRan, hProceeded⟩ := Exec.bind_eq_ok.mp hResumed
      exact bodyNext_proper (Exec.sealed_eq_ok.mp hRan) hProceeded
  | failure value children =>
      obtain ⟨_, _, _, hFinished⟩ := Exec.bind_eq_ok.mp hResumed
      cases hFinished
      exact .result (.failure value children)

theorem resume_waiting_proper {result : Value κ} (hWaits : frame.Waits flag)
    (hResult : result.IsResult) (hResumed : frame.resume host result world = .ok step final) :
    step.Proper host flag := by
  cases hWaits with
  | @bound f hContinues =>
      cases hResult with
      | success value =>
          obtain ⟨given, _, hTaken, hApplied⟩ := Exec.bind_eq_ok.mp hResumed
          obtain ⟨produced, _, hGave, hYielded⟩ := Exec.bind_eq_ok.mp hApplied
          refine yieldAlternative_proper .relay .relay (fun mark q hSame => ?_) hYielded
          rw [hSame] at hGave
          exact applyMapper_public_or_offers hContinues (Exec.sealed_eq_ok.mp hGave)
      | failure value children =>
          cases hResumed
          exact .result (.failure value children)
  | relay =>
      cases hResumed
      exact .result hResult
  | sequenced collected hAllPublic =>
      cases hResult with
      | success value => exact sequenceNext_proper hAllPublic hResumed
      | failure value children =>
          cases hResumed
          exact .result (.failure value children)
  | traversed rest f collected =>
      cases hResult with
      | success value => exact traverseNext_proper hResumed
      | failure value children =>
          cases hResumed
          exact .result (.failure value children)
  | altLeft user hPublic =>
      cases hResult with
      | success value =>
          cases hResumed
          exact .result (.success value)
      | failure value children =>
          cases hResumed
          exact .asks (.reread user value children hPublic)
  | altRight value children hClear =>
      cases hResult with
      | success result =>
          cases hResumed
          exact .result (.success result)
      | failure other grandchildren =>
          cases hResumed
          exact .result (.failure value (children ++ [.tree other grandchildren]))
  | body name t => exact bodySend_proper hResult hResumed

theorem guarded_isPrimitive {computation : Exec κ ω (Value κ)} {classes : List ExceptionClass}
    (hEnded : Host.guarded computation classes world = .ok value final) : value.IsPrimitive := by
  unfold Host.guarded at hEnded
  cases hComputed : computation world with
  | ok result after =>
      rw [Exec.tryCatch_of_ok (Exec.map_of_ok hComputed)] at hEnded
      cases hEnded
      exact .success result
  | error halt after =>
      rw [Exec.tryCatch_of_error (Exec.map_of_error hComputed)] at hEnded
      cases halt with
      | exhausted => cases hEnded
      | raised exception =>
          dsimp only at hEnded
          split at hEnded
          · obtain ⟨text, _, rfl⟩ := Exec.map_eq_ok.mp hEnded
            exact .failure (.str text)
          · cases hEnded

theorem resume_mapped_isPrimitive {f : Mapper κ} {effect : Program κ} (hFinishes : f.Finishes effect)
    (hAnswered : effect = .get → sent = .pair user (.bool flag))
    (hResumed : (mapped f : Frame κ τ).resume host sent world = .ok step final) :
    ∃ result : Value κ, result.IsPrimitive ∧ step = .returned result := by
  obtain ⟨result, after, hApplied, hFinished⟩ := Exec.bind_eq_ok.mp hResumed
  cases hFinished
  refine ⟨result, ?_, rfl⟩
  cases hFinishes with
  | error failure =>
      cases hApplied
      exact .failure sent
  | attempt thunk classes => exact guarded_isPrimitive (Exec.sealed_eq_ok.mp hApplied)
  | get =>
      rw [hAnswered rfl] at hApplied
      cases hApplied
      exact .success user
  | modify f =>
      cases hApplied
      exact .success .null

theorem resume_asked_proper {effect : Program κ} (hAsks : frame.Asks flag effect)
    (hLasting : effect ≠ .modify .raiseFlag)
    (hAnswered : effect = .get → sent = .pair user (.bool flag))
    (hResumed : frame.resume host sent world = .ok step final) : step.Proper host flag := by
  cases hAsks with
  | primitive hFinishes =>
      obtain ⟨result, hPrimitive, rfl⟩ := resume_mapped_isPrimitive hFinishes hAnswered hResumed
      exact .result hPrimitive.isResult
  | abort failure => exact absurd rfl hLasting
  | snapshot hFirstPublic hSecondPublic =>
      rw [hAnswered rfl] at hResumed
      cases hResumed
      exact .runs (.altLeft user hSecondPublic) hFirstPublic
  | reread kept value children hPublic =>
      rw [hAnswered rfl] at hResumed
      cases flag with
      | true =>
          rw [resume_altFlag_true] at hResumed
          obtain ⟨_, _, _, hFinished⟩ := Exec.bind_eq_ok.mp hResumed
          cases hFinished
          exact .result (.failure value children)
      | false =>
          rw [resume_altFlag_false] at hResumed
          obtain ⟨_, _, _, hYields⟩ := Exec.bind_eq_ok.mp hResumed
          cases hYields
          exact .asks (.restore kept value children hPublic rfl)
  | restore kept value children hPublic hClear =>
      cases hResumed
      exact .runs (.altRight value children hClear) hPublic

theorem Ready.resume_proper (hReady : frame.Ready flag user sent)
    (hResumed : frame.resume host sent world = .ok step final) : step.Proper host flag := by
  cases hReady with
  | fresh hPublic => exact begin_proper hPublic hResumed
  | waiting hWaits hResult => exact resume_waiting_proper hWaits hResult hResumed
  | asked hAsks hLasting hAnswered => exact resume_asked_proper hAsks hLasting hAnswered hResumed

end Frame

theorem Host.applyMapper_updateUser {lacking : Bool} {host : Host κ τ ω lacking} {f : Mapper κ}
    {user value : Value κ}
    {world final : World ω}
    (hApplied : host.applyMapper (.updateUser f) (.pair user (.bool flag)) world = .ok value final) :
    ∃ updated, value = .pair updated (.bool flag) := by
  obtain ⟨given, _, hTaken, hChanging⟩ := Exec.bind_eq_ok.mp hApplied
  obtain ⟨updated, _, _, hKeeping⟩ := Exec.bind_eq_ok.mp hChanging
  cases hKeeping
  exact ⟨updated, rfl⟩

namespace Machine

variable {lacking : Bool} {host : Host κ τ ω lacking} {m next : Machine κ τ} {user : Value κ}
  {world after : World ω}

inductive Raising (flag : Bool) : Machine κ τ → Prop where
  | mk {below : List (Frame κ τ)} (user reason : Value κ) (steps : Nat) :
      (∀ frame ∈ below, frame.Waits flag) →
      Raising flag ⟨.deliver .null, .pair user (.bool true), .aborting reason :: below, steps⟩

theorem Live.of_isResult {result : Value κ} {stack : List (Frame κ τ)} {steps : Nat}
    (hResult : result.IsResult) (hWaits : ∀ frame ∈ stack, frame.Waits flag) :
    Live flag ⟨.deliver result, .pair user (.bool flag), stack, steps⟩ := by
  cases stack with
  | nil => exact .done user steps hResult
  | cons frame below =>
      obtain ⟨hFrameWaits, hBelowWait⟩ := List.forall_mem_cons.mp hWaits
      exact .sending steps (.waiting hFrameWaits hResult) hBelowWait

theorem Live.start {p : Program κ} (hPublic : p.Public) :
    (Machine.start p (.pair user (.bool flag)) : Machine κ τ).Live flag :=
  .taking user 0 hPublic (List.forall_mem_nil _)

theorem step_of_asks {effect : Program κ} {frame : Frame κ τ} {below : List (Frame κ τ)}
    {steps : Nat} (hAsks : frame.Asks flag effect) (hWaits : ∀ frame ∈ below, frame.Waits flag)
    (hStepped : (⟨.take effect, .pair user (.bool flag), frame :: below, steps⟩ :
      Machine κ τ).step host world = .ok (.inl next) after) :
    next.Live flag ∨ next.Raising flag := by
  cases hAsks with
  | primitive hFinishes =>
      refine .inl ?_
      cases hFinishes with
      | error failure =>
          cases hStepped
          exact .sending _ (.asked (.primitive (.error failure)) nofun nofun) hWaits
      | attempt thunk classes =>
          cases hStepped
          exact .sending _ (.asked (.primitive (.attempt thunk classes)) nofun fun _ => rfl) hWaits
      | get =>
          cases hStepped
          exact .sending _ (.asked (.primitive .get) nofun fun _ => rfl) hWaits
      | modify f =>
          obtain ⟨changed, hApplied, ⟨⟩⟩ := step_modify_cases hStepped
          obtain ⟨updated, rfl⟩ := Host.applyMapper_updateUser hApplied
          exact .sending _ (.asked (.primitive (.modify f)) nofun nofun) hWaits
  | abort failure =>
      cases hStepped
      exact .inr (.mk user failure _ hWaits)
  | snapshot hFirstPublic hSecondPublic =>
      cases hStepped
      exact .inl (.sending _ (.asked (.snapshot hFirstPublic hSecondPublic) nofun fun _ => rfl) hWaits)
  | reread kept value children hPublic =>
      cases hStepped
      exact .inl (.sending _ (.asked (.reread kept value children hPublic) nofun fun _ => rfl)
        hWaits)
  | restore kept value children hPublic hClear =>
      cases hStepped
      exact .inl (.sending _ (.asked (.restore kept value children hPublic hClear) nofun nofun)
        hWaits)

/-- A step of a live machine leaves it live, if it goes on with public alternatives, or sets the flag. -/
theorem Live.step_cases (hLive : m.Live flag) (hStepped : m.step host world = .ok (.inl next) after)
    (hChooses : next.ChoosesPublic) : next.Live flag ∨ next.Raising flag := by
  cases hLive with
  | taking user steps hPublic hWaits =>
      refine .inl ?_
      cases hPublic with
      | result hResult =>
          cases hStepped
          exact .of_isResult hResult hWaits
      | generator hRecipePublic =>
          cases hStepped
          exact .sending _ (.fresh hRecipePublic) hWaits
  | asking user steps hAsks hWaits => exact step_of_asks hAsks hWaits hStepped
  | sending steps hReady hWaits =>
      refine .inl ?_
      rcases step_deliver_cases hStepped with
        ⟨value, hResumed, ⟨⟩⟩ | ⟨q, rest, hResumed, ⟨⟩⟩
      · cases hReady.resume_proper hResumed with
        | result hResult => exact .of_isResult hResult hWaits
      · cases hReady.resume_proper hResumed with
        | asks hAsks => exact .asking _ _ hAsks hWaits
        | runs hRestWaits hPublic =>
            exact .taking _ _ hPublic (List.forall_mem_cons.mpr ⟨hRestWaits, hWaits⟩)
        | offered hRestWaits hFromHost hOffers =>
            -- the one place where code of the host decides what is run
            have hPublic : q.Public := hChooses q rest _ rfl rfl hFromHost
            exact .taking _ _ hPublic (List.forall_mem_cons.mpr ⟨hRestWaits, hWaits⟩)
  | done user steps hResult => cases hStepped

theorem Live.choosesPublic (hLive : m.Live flag)
    (hStepped : m.step host world = .ok (.inl next) after)
    (hOffersPublic : ∀ q, host.Offers q → q.Public) : next.ChoosesPublic := by
  intro q frame below hTaken hTop hFromHost
  cases hLive with
  | taking user steps hPublic hWaits | asking user steps hAsks hWaits =>
      obtain ⟨value, hDelivers⟩ := step_take_mode hStepped
      rw [hDelivers] at hTaken
      cases hTaken
  | sending steps hReady hWaits =>
      rcases step_deliver_cases hStepped with
        ⟨value, hResumed, ⟨⟩⟩ | ⟨p, rest, hResumed, ⟨⟩⟩
      · cases hTaken
      · cases hTaken
        cases hTop
        cases hReady.resume_proper hResumed with
        | asks hAsks =>
            cases hFromHost with
            | relay | traversed rest f collected | body name t => cases hAsks
        | runs hRestWaits hPublic => exact hPublic
        | offered hRestWaits hFromHost hOffers => exact hOffersPublic q hOffers
  | done user steps hResult => cases hStepped

end Machine

end Backtrack
