import Backtrack.Proofs.Abort
import Backtrack.Proofs.Folding

namespace Backtrack

variable {κ τ ω α : Type} {host : Host κ τ ω} {p : Program κ} {frame rest : Frame κ τ} {flag : Bool}
  {state sent value left user failure : Value κ} {steps : Nat} {world start next final : World ω}

structure Program.Returns (host : Host κ τ ω) (p : Program κ) (state : Value κ) (world : World ω)
    (value left : Value κ) (steps : Nat) (final : World ω) : Prop where
  publicly : p.RunsPublicly host state world
  runs : p.Runs host state world (.returned value left steps) final

theorem Program.Returns.proper
    (hReturns : p.Returns host (.pair user (.bool flag)) world value left steps final) :
    value.IsResult ∧ left.IsStatePair := by
  obtain ⟨fuel, hReturned⟩ := hReturns.runs
  have hPublicly : (Alternative.mk p).program.RunsPublicly host (.pair user (.bool flag)) world :=
    hReturns.publicly
  obtain ⟨hResult, last, rfl | ⟨rfl, _⟩⟩ := Alternative.returned_cases hPublicly hReturned
  · exact ⟨hResult, .mk last flag⟩
  · exact ⟨hResult, .mk last true⟩

inductive Host.ReturnsChosen (host : Host κ τ ω) (choice : Exec κ ω (Program κ)) (state : Value κ)
    (world : World ω) : Outcome κ → World ω → Prop where
  | mk {p : Program κ} {value left : Value κ} {steps : Nat} {start final : World ω} :
      choice world = .ok p start → p.Returns host state start value left steps final →
      ReturnsChosen host choice state world (.returned value left steps) final

/-- How a body in do-notation goes on from the answer to its being resumed: the alternatives that it yields
are run one after another, up to the first that fails. The steps are those of all that are run. -/
inductive Host.Performs (host : Host κ τ ω) : Exec κ ω (Step κ τ) → Value κ → World ω →
    Value κ → Value κ → Nat → World ω → Prop where
  | returned {answer : Exec κ ω (Step κ τ)} {state value : Value κ} {world final : World ω} :
      answer world = .ok (.returned value) final →
      Performs host answer state world (.ok value) state 0 final
  | failed {answer : Exec κ ω (Step κ τ)} {mark : Mark} {p : Program κ} {t : τ}
      {state failure left : Value κ} {n : Nat} {world start next final : World ω} :
      answer world = .ok (.yielded (.alternative mark p) t) start →
      p.Returns host state start (.err failure) left n next → host.close t next = .ok () final →
      Performs host answer state world (.err failure) left n final
  | continued {answer : Exec κ ω (Step κ τ)} {mark : Mark} {p : Program κ} {t : τ}
      {state success left value last : Value κ} {n m : Nat} {world start next final : World ω} :
      answer world = .ok (.yielded (.alternative mark p) t) start →
      p.Returns host state start (.ok success) left n next →
      Performs host (host.resume t success) left next value last m final →
      Performs host answer state world value last (n + m) final

/-- How many steps a program takes that returns when it is started from the pair, by what it runs. -/
inductive Program.Takes (host : Host κ τ ω) (pair : Value κ) (world : World ω) :
    Program κ → Value κ → Value κ → Nat → World ω → Prop where
  | result {value : Value κ} :
      value.IsResult → Takes host pair world (.pure value) value pair 1 world
  | primitive {mark : Mark} {f : Mapper κ} {effect : Program κ} {value left : Value κ}
      {final : World ω} :
      f.Finishes effect → Takes host pair world (.generator mark (.map effect f)) value left 2 final
  | abort {mark : Mark} {reason user flag : Value κ} :
      pair = .pair user flag → Takes host pair world (.generator mark (.abort reason))
        (.failWith reason) (.pair user (.bool true)) 2 world
  /-- Neither a binder nor a function that is mapped is called on a failure. -/
  | unbound {mark : Mark} {p : Program κ} {f : Mapper κ} {failure left : Value κ} {n : Nat}
      {final : World ω} :
      p.Returns host pair world (.err failure) left n final →
      Takes host pair world (.generator mark (.bind p f)) (.err failure) left (1 + n) final
  | bound {mark given : Mark} {p q : Program κ} {f : Callable κ}
      {success left value last : Value κ} {n m : Nat} {next start final : World ω} :
      p.Returns host pair world (.ok success) left n next →
      host.invoke f [success] next = .ok (.alternative given q) start →
      q.Returns host left start value last m final →
      Takes host pair world (.generator mark (.bind p (.call f))) value last (1 + n + m) final
  | mapped {mark : Mark} {p : Program κ} {f : Callable κ} {success left result : Value κ} {n : Nat}
      {next final : World ω} :
      p.Returns host pair world (.ok success) left n next →
      host.invoke f [success] next = .ok result final →
      Takes host pair world (.generator mark (.bind p (.injectAfter f))) (.ok result) left (1 + n + 1)
        final
  | applied {mark : Mark} {p q : Program κ} {f : Callable κ} {left value last : Value κ} {n m : Nat}
      {next final : World ω} :
      p.Returns host pair world (.ok (.callable f)) left n next →
      (Alternative.fmap f ⟨q⟩).program.Returns host left next value last m final →
      Takes host pair world (.generator mark (.bind p (.mapOver q))) value last (1 + n + m) final
  | sequence {mark : Mark} {ps : List (Program κ)} {value left : Value κ} {n : Nat}
      {final : World ω} :
      Outcomes.Collects (fun p => host.ReturnsChosen (Pure.pure p)) [] ps pair world
        (.returned value left n) final →
      Takes host pair world (.generator mark (.sequence ps)) value left (1 + n) final
  | traverse {mark : Mark} {items : List (Value κ)} {f : Callable κ} {value left : Value κ} {n : Nat}
      {final : World ω} :
      Outcomes.Collects (fun item => host.ReturnsChosen (host.choose f item)) [] items pair world
        (.returned value left n) final →
      Takes host pair world (.generator mark (.traverse items f)) value left (1 + n) final
  | ordinary {mark : Mark} {f : DoFunction κ} {args : List (Value κ)} {result : Value κ}
      {final : World ω} :
      host.start f.code args world = .ok (.value result) final →
      Takes host pair world (.generator mark (.body f args)) (.ok result) pair 1 final
  | body {mark : Mark} {f : DoFunction κ} {args : List (Value κ)} {t : τ} {value left : Value κ}
      {n : Nat} {start final : World ω} :
      host.start f.code args world = .ok (.coroutine t) start →
      host.Performs (host.resume t .null) pair start value left n final →
      Takes host pair world (.generator mark (.body f args)) value left (1 + n) final
  | succeeded {mark : Mark} {first second : Program κ} {success left : Value κ} {n : Nat}
      {final : World ω} :
      first.Returns host pair world (.ok success) left n final →
      Takes host pair world (.generator mark (.altOr first second)) (.ok success) left (2 + n) final
  | aborted {mark : Mark} {first second : Program κ} {failure user : Value κ} {n : Nat}
      {next : World ω} :
      first.Returns host pair world (.err failure) (.pair user (.bool true)) n next →
      Takes host pair world (.generator mark (.altOr first second)) (.err failure)
        (.pair user (.bool true)) (2 + n + 1) (host.noting .alternationSkipped failure next)
  | recovered {mark : Mark} {first second : Program κ} {root user success left : Value κ}
      {children : List (Value κ)} {n m : Nat} {next final : World ω} :
      first.Returns host pair world (.err (.tree root children)) (.pair user (.bool false)) n next →
      second.Returns host pair (host.noting .backtracked (.tree root children) next) (.ok success) left
        m final →
      Takes host pair world (.generator mark (.altOr first second)) (.ok success) left
        (2 + n + 1 + (1 + m)) final
  | exhausted {mark : Mark} {first second : Program κ} {root user failure left : Value κ}
      {children : List (Value κ)} {n m : Nat} {next final : World ω} :
      first.Returns host pair world (.err (.tree root children)) (.pair user (.bool false)) n next →
      second.Returns host pair (host.noting .backtracked (.tree root children) next) (.err failure) left
        m final →
      Takes host pair world (.generator mark (.altOr first second))
        (.err (.tree root (children ++ [failure]))) left (2 + n + 1 + (1 + m)) final

namespace Activity

variable {activity : Activity κ τ}

/-- Whatever alternative the host's code produces in the course of the activity is public. -/
def ChoosesPublic (host : Host κ τ ω) (activity : Activity κ τ) (state : Value κ)
    (world : World ω) : Prop :=
  ∀ q seen now frame below, Visits host q seen now activity state world (frame :: below) →
    frame.FromHost → q.Public

/-- In a public run, the activity comes to the value after so many steps. -/
structure Returns (host : Host κ τ ω) (activity : Activity κ τ) (state : Value κ) (world : World ω)
    (value left : Value κ) (steps : Nat) (final : World ω) : Prop where
  chooses : activity.ChoosesPublic host state world
  evaluates : Evaluates host activity state world (.returned value left steps) final

end Activity

theorem Program.runsPublicly_iff :
    p.RunsPublicly host state world ↔
      p.Public ∧ (Activity.program p).ChoosesPublic host state world := by
  constructor
  · intro hPublicly
    refine ⟨hPublicly.isPublic, fun q seen now frame below hVisits hFromHost => ?_⟩
    obtain ⟨count, more, hReaches⟩ := Machine.exists_reaches_take_iff.mpr hVisits
    exact hPublicly.chooses count _ now hReaches q frame below rfl rfl hFromHost
  · rintro ⟨hPublic, hChooses⟩
    refine ⟨hPublic, fun count m now hReaches q frame below hTaken hTop hFromHost => ?_⟩
    obtain ⟨mode, seen, stack, more⟩ := m
    subst hTaken
    subst hTop
    exact hChooses q seen now frame below
      (Machine.exists_reaches_take_iff.mp ⟨count, more, hReaches⟩) hFromHost

theorem Program.returns_iff :
    p.Returns host state world value left steps final ↔
      p.Public ∧ (Activity.program p).Returns host state world value left steps final := by
  constructor
  · rintro ⟨hPublicly, hRuns⟩
    obtain ⟨hPublic, hChooses⟩ := Program.runsPublicly_iff.mp hPublicly
    exact ⟨hPublic, hChooses, hRuns.evaluates⟩
  · rintro ⟨hPublic, hChooses, hEvaluates⟩
    exact ⟨Program.runsPublicly_iff.mpr ⟨hPublic, hChooses⟩,
      Program.runs_iff_exists_evaluates.mpr ⟨_, hEvaluates, rfl⟩⟩

theorem Ending.after_eq_returned {ending : Ending κ} {spent : Nat}
    (hEnded : Ending.returned value left steps = ending.after spent) :
    ∃ cost, ending = .returned value left cost ∧ steps = spent + cost := by
  cases ending with
  | returned =>
      cases hEnded
      exact ⟨_, rfl, rfl⟩
  | raised | replaced => cases hEnded

theorem Evaluates.cost_pos
    (hEvaluates : Evaluates host (.program p) state world (.returned value left steps) final) :
    0 < steps := by
  generalize hEnded : Ending.returned value left steps = ending at hEvaluates
  cases hEvaluates with
  | pure | get | put | modify =>
      cases hEnded
      exact Nat.one_pos
  | generator =>
      obtain ⟨cost, _, rfl⟩ := Ending.after_eq_returned hEnded
      omega
  | modifyRaised | foreign | foreignEffect => cases hEnded

namespace Activity.Returns

theorem generator {mark : Mark} {r : Recipe κ}
    (hReturns : (program (.generator mark r)).Returns host state world value left steps final) :
    ∃ n, (Activity.generator (.fresh r) .null).Returns host state world value left n final ∧
      steps = 1 + n := by
  obtain ⟨inner, hBegun, hEnded⟩ := Evaluates.generator_iff.mp hReturns.evaluates
  obtain ⟨n, rfl, rfl⟩ := Ending.after_eq_returned hEnded
  exact ⟨n, ⟨fun _ _ _ _ _ hVisits => hReturns.chooses _ _ _ _ _ (.generator hVisits), hBegun⟩, rfl⟩

theorem of_returned {result : Value κ}
    (hReturns : (Activity.generator frame sent).Returns host state world value left steps final)
    (hResumed : frame.resume host sent world = .ok (.returned result) next) :
    value = result ∧ left = state ∧ steps = 0 ∧ final = next := by
  obtain ⟨⟨⟩, rfl⟩ := (Evaluates.returned_iff hResumed).mp hReturns.evaluates
  exact ⟨rfl, rfl, rfl, rfl⟩

theorem yielded
    (hReturns : (Activity.generator frame sent).Returns host state world value left steps final)
    (hResumed : frame.resume host sent world = .ok (.yielded (.program p) rest) start) :
    (rest.FromHost → p.Public) ∧
    ∃ result middle n next m, (program p).Returns host state start result middle n next ∧
      (Activity.generator rest result).Returns host middle next value left m final ∧ steps = n + m := by
  refine ⟨hReturns.chooses _ _ _ _ _ (.inside hResumed .here), ?_⟩
  obtain ⟨inner, next, hEvaluates, hFollows⟩ := (Evaluates.yielded_iff hResumed).mp hReturns.evaluates
  cases inner with
  | raised | replaced => cases hFollows
  | returned result middle n =>
      obtain ⟨onward, hContinues, hEnded⟩ := Follows.returned_iff.mp hFollows
      obtain ⟨m, rfl, rfl⟩ := Ending.after_eq_returned hEnded
      refine ⟨result, middle, n, next, m, ⟨fun q seen now frame below hVisits => ?_, hEvaluates⟩,
        ⟨fun q seen now frame below hVisits => ?_, hContinues⟩, rfl⟩
      · exact hReturns.chooses q seen now frame _ (.inside hResumed hVisits)
      · exact hReturns.chooses q seen now frame _ (.later hResumed hEvaluates hVisits)

theorem resume_cases
    (hReturns : (Activity.generator frame sent).Returns host state world value left steps final) :
    frame.resume host sent world = .ok (.returned value) final ∨
      ∃ p rest next, frame.resume host sent world = .ok (.yielded (.program p) rest) next := by
  have hEvaluates := hReturns.evaluates
  generalize hEnded : Ending.returned value left steps = ending at hEvaluates
  cases hEvaluates with
  | returned hResumed =>
      cases hEnded
      exact .inl hResumed
  | yielded hResumed => exact .inr ⟨_, _, _, hResumed⟩
  | resumeRaised | yieldedRaised | yieldedReplacing | yieldedReplaced | stray | strayRaised =>
      cases hEnded

theorem asking_get
    (hReturns : (Activity.generator frame sent).Returns host state world value left steps final)
    (hResumed : frame.resume host sent world = .ok (.yielded (.program .get) rest) start) :
    ∃ m, (Activity.generator rest state).Returns host state start value left m final ∧
      steps = 1 + m := by
  obtain ⟨_, _, _, _, _, m, hAsked, hOnward, rfl⟩ := hReturns.yielded hResumed
  obtain ⟨⟨⟩, rfl⟩ := Evaluates.get_iff.mp hAsked.evaluates
  exact ⟨m, hOnward, rfl⟩

theorem asking_put {replacement : Value κ}
    (hReturns : (Activity.generator frame sent).Returns host state world value left steps final)
    (hResumed : frame.resume host sent world =
      .ok (.yielded (.program (.put replacement)) rest) start) :
    ∃ m, (Activity.generator rest .null).Returns host replacement start value left m final ∧
      steps = 1 + m := by
  obtain ⟨_, _, _, _, _, m, hAsked, hOnward, rfl⟩ := hReturns.yielded hResumed
  obtain ⟨⟨⟩, rfl⟩ := Evaluates.put_iff.mp hAsked.evaluates
  exact ⟨m, hOnward, rfl⟩

theorem running (hPublic : p.Public)
    (hReturns : (Activity.generator frame sent).Returns host (.pair user (.bool flag)) world value left
      steps final)
    (hResumed : frame.resume host sent world = .ok (.yielded (.program p) rest) start) :
    ∃ result last set n next m,
      p.Returns host (.pair user (.bool flag)) start result (.pair last (.bool set)) n next ∧
      result.IsResult ∧
      (Activity.generator rest result).Returns host (.pair last (.bool set)) next value left m final ∧
      steps = n + m := by
  obtain ⟨_, result, middle, n, next, m, hRan, hOnward, rfl⟩ := hReturns.yielded hResumed
  have hAlone := Program.returns_iff.mpr ⟨hPublic, hRan⟩
  obtain ⟨hResult, ⟨last, set⟩⟩ := hAlone.proper
  exact ⟨result, last, set, n, next, m, hAlone, hResult, hOnward, rfl⟩

theorem relaying {f : Mapper κ}
    (hReturns : (Activity.generator (.bound f) (.ok sent)).Returns host state world value left steps
      final) :
    ∃ mark q start, host.applyMapper f sent world = .ok (.alternative mark q) start ∧
      q.Returns host state start value left steps final := by
  have hResumes : (Frame.bound f : Frame κ τ).resume host (.ok sent) world =
      ((host.applyMapper f sent).sealed >>= Frame.yieldAlternative .binderResult .relay) world := rfl
  rcases hReturns.resume_cases with hResumed | ⟨q, rest, start, hResumed⟩
  · obtain ⟨produced, _, _, hYields⟩ := Exec.bind_eq_ok.mp (hResumes.symm.trans hResumed)
    cases produced <;> cases hYields
  · obtain ⟨produced, _, hApplied, hYields⟩ := Exec.bind_eq_ok.mp (hResumes.symm.trans hResumed)
    cases produced with
    | alternative mark =>
        cases hYields
        obtain ⟨hOffered, result, middle, n, last, m, hRan, hOnward, rfl⟩ := hReturns.yielded hResumed
        obtain ⟨rfl, rfl, rfl, rfl⟩ := hOnward.of_returned rfl
        exact ⟨mark, q, start, Exec.sealed_eq_ok.mp hApplied,
          Program.returns_iff.mpr ⟨hOffered .relay, hRan⟩⟩
    | _ => cases hYields

theorem collects {row : List α} {collected : List (Value κ)} {choose : α → Exec κ ω (Program κ)}
    {after : List α → List (Value κ) → Frame κ τ} (hGathers : Frame.Gathers host choose after)
    (hPicks : ∀ a ∈ row, ∀ start p next, choose a start = .ok p next →
      (∀ rest collected, (after rest collected).FromHost) ∨ p.Public)
    (hReturns : (Activity.generator frame sent).Returns host (.pair user (.bool flag)) world value left
      steps final)
    (hResumes : frame.resume host sent world = Frame.rowNext choose after collected row world) :
    Outcomes.Collects (fun a => host.ReturnsChosen (choose a)) collected.reverse row
      (.pair user (.bool flag)) world (.returned value left steps) final := by
  induction row generalizing frame sent user flag world steps collected with
  | nil =>
      obtain ⟨rfl, rfl, rfl, rfl⟩ := hReturns.of_returned hResumes
      exact Outcomes.collects_nil_iff.mpr ⟨rfl, rfl⟩
  | cons a others ih =>
      rw [Outcomes.collects_cons_iff]
      rcases hReturns.resume_cases with hResumed | ⟨p, rest, start, hResumed⟩
      · obtain ⟨_, _, _, hYields⟩ := Exec.bind_eq_ok.mp (hResumes.symm.trans hResumed)
        cases hYields
      obtain ⟨_, _, hChosen, hYields⟩ := Exec.bind_eq_ok.mp (hResumes.symm.trans hResumed)
      cases hYields
      have hPublic : p.Public := (hPicks a List.mem_cons_self _ _ _ hChosen).elim
        (fun hFromHost => (hReturns.yielded hResumed).1 (hFromHost others collected)) id
      obtain ⟨result, last, set, n, next, m, hRan, hResult, hOnward, rfl⟩ :=
        hReturns.running hPublic hResumed
      refine ⟨_, next, .mk hChosen hRan, ?_⟩
      cases hResult with
      | success success =>
          have hGoesOn := ih (fun b hLater => hPicks b (List.mem_cons_of_mem a hLater)) hOnward
            (hGathers.goesOn others collected success next)
          rw [List.reverse_cons] at hGoesOn
          exact Outcomes.sequel_continued_iff.mpr ⟨_, hGoesOn, rfl⟩
      | failure root children =>
          obtain ⟨rfl, rfl, rfl, rfl⟩ := hOnward.of_returned ((hGathers.passes _ _).failed _ next)
          exact .failed

theorem performs {name : Option String} {answer : Exec κ ω (Step κ τ)}
    (hReturns : (Activity.generator frame sent).Returns host (.pair user (.bool flag)) world value left
      steps final)
    (hResumes : frame.resume host sent world = (answer.sealed >>= Frame.bodyNext host name) start) :
    host.Performs answer (.pair user (.bool flag)) start value left steps final := by
  -- What a body yields takes a step at least, so what is left of the body takes fewer.
  induction steps using Nat.strongRecOn generalizing frame sent user flag world answer start with
  | ind steps ih =>
  rcases hReturns.resume_cases with hResumed | ⟨p, rest, middle, hResumed⟩
  · obtain ⟨step, next, hAnswered, hRead⟩ := Exec.bind_eq_ok.mp (hResumes.symm.trans hResumed)
    obtain ⟨_, rfl, rfl, rfl⟩ := Frame.bodyNext_eq_returned hRead
    obtain ⟨_, rfl, rfl, _⟩ := hReturns.of_returned hResumed
    exact .returned (Exec.sealed_eq_ok.mp hAnswered)
  obtain ⟨step, next, hAnswered, hRead⟩ := Exec.bind_eq_ok.mp (hResumes.symm.trans hResumed)
  obtain ⟨mark, _, t, rfl, ⟨⟩, rfl, rfl⟩ := Frame.bodyNext_eq_yielded hRead
  have hPublic : p.Public := (hReturns.yielded hResumed).1 (.body name t)
  obtain ⟨result, last, set, n, next, m, hRan, hResult, hOnward, rfl⟩ := hReturns.running hPublic hResumed
  cases hResult with
  | success success =>
      have hPositive := hRan.runs.evaluates.cost_pos
      exact .continued (Exec.sealed_eq_ok.mp hAnswered) hRan (ih m (by omega) hOnward rfl)
  | failure root children =>
      rcases hOnward.resume_cases with hClosing | ⟨_, _, _, hClosing⟩
      · obtain ⟨_, _, hClosed, hFinishes⟩ := Exec.bind_eq_ok.mp hClosing
        cases hFinishes
        obtain ⟨_, rfl, rfl, _⟩ := hOnward.of_returned hClosing
        exact .failed (Exec.sealed_eq_ok.mp hAnswered) hRan (Exec.sealed_eq_ok.mp hClosed)
      · obtain ⟨_, _, _, hFinishes⟩ := Exec.bind_eq_ok.mp hClosing
        cases hFinishes

end Activity.Returns

namespace Program

variable {mark : Mark} {first second : Program κ} {ps : List (Program κ)} {f : Mapper κ}

theorem Returns.begun {r : Recipe κ}
    (hReturns : (generator mark r).Returns host state world value left steps final) :
    ∃ n, (Activity.generator (.fresh r) .null).Returns host state world value left n final ∧
      steps = 1 + n :=
  (returns_iff.mp hReturns).2.generator

theorem takes_primitive {effect : Program κ} (hFinishes : f.Finishes effect)
    (hReturns : (generator mark (.map effect f)).Returns host state world value left steps final) :
    (generator mark (.map effect f)).Takes host state world value left steps final := by
  obtain ⟨_, hBegun, rfl⟩ := hReturns.begun
  obtain ⟨_, result, middle, n, next, m, hAsked, hOnward, rfl⟩ := hBegun.yielded rfl
  have hOne : n = 1 := by
    have hEvaluates := hAsked.evaluates
    cases hFinishes <;> cases hEvaluates <;> rfl
  rcases hOnward.resume_cases with hResumed | ⟨_, _, _, hResumed⟩
  · obtain ⟨_, _, rfl, _⟩ := hOnward.of_returned hResumed
    subst hOne
    exact .primitive hFinishes
  · obtain ⟨_, _, _, hFinished⟩ := Exec.bind_eq_ok.mp hResumed
    cases hFinished

theorem takes_abort {reason : Value κ}
    (hReturns : (generator mark (.abort reason)).Returns host (.pair user (.bool flag)) world value left
      steps final) :
    (generator mark (.abort reason)).Takes host (.pair user (.bool flag)) world value left steps
      final := by
  obtain ⟨_, hBegun, rfl⟩ := hReturns.begun
  obtain ⟨_, result, middle, n, next, m, hAsked, hOnward, rfl⟩ := hBegun.yielded rfl
  obtain ⟨rfl, rfl, rfl, rfl⟩ := hOnward.of_returned rfl
  have hEvaluates := hAsked.evaluates
  cases hEvaluates with
  | modify hRaised =>
      cases hRaised
      exact .abort rfl

theorem takes_bind (hPublic : first.Public) (hContinues : f.Continues)
    (hReturns : (generator mark (.bind first f)).Returns host (.pair user (.bool flag)) world value left
      steps final) :
    (generator mark (.bind first f)).Takes host (.pair user (.bool flag)) world value left steps
      final := by
  obtain ⟨_, hBegun, rfl⟩ := hReturns.begun
  obtain ⟨result, last, set, n, next, m, hRan, hResult, hOnward, rfl⟩ := hBegun.running hPublic rfl
  cases hResult with
  | failure root children =>
      obtain ⟨rfl, rfl, rfl, rfl⟩ := hOnward.of_returned rfl
      exact .unbound hRan
  | success success =>
      obtain ⟨given, q, start, hApplied, hBound⟩ := hOnward.relaying
      rw [← Nat.add_assoc]
      cases hContinues with
      | call g => exact .bound hRan hApplied hBound
      | injectAfter g =>
          obtain ⟨produced, _, hInvoked, hInjected⟩ := Exec.bind_eq_ok.mp hApplied
          cases hInjected
          obtain ⟨⟨⟩, rfl⟩ := Evaluates.pure_iff.mp hBound.runs.evaluates
          exact .mapped hRan hInvoked
      | mapOver _ =>
          cases success with
          | callable g =>
              cases hApplied
              exact .applied hRan hBound
          | _ => cases hApplied

theorem takes_sequence (hAllPublic : ∀ p ∈ ps, p.Public)
    (hReturns : (generator mark (.sequence ps)).Returns host (.pair user (.bool flag)) world value left
      steps final) :
    (generator mark (.sequence ps)).Takes host (.pair user (.bool flag)) world value left steps
      final := by
  obtain ⟨_, hBegun, rfl⟩ := hReturns.begun
  have hGathers : Frame.Gathers host (Pure.pure : Program κ → Exec κ ω (Program κ)) Frame.sequenced := by
    refine ⟨fun _ _ => ⟨fun _ _ => rfl, fun _ => rfl⟩, fun rest collected success next => ?_⟩
    cases rest <;> rfl
  have hResumes : (Frame.fresh (.sequence ps)).resume host .null world =
      Frame.rowNext Pure.pure Frame.sequenced [] ps world := by
    cases ps <;> rfl
  refine .sequence (hBegun.collects hGathers (fun p hWithin _ _ _ hChosen => .inr ?_) hResumes)
  cases hChosen
  exact hAllPublic p hWithin

theorem takes_traverse {items : List (Value κ)} {g : Callable κ}
    (hReturns : (generator mark (.traverse items g)).Returns host (.pair user (.bool flag)) world value
      left steps final) :
    (generator mark (.traverse items g)).Takes host (.pair user (.bool flag)) world value left steps
      final := by
  obtain ⟨_, hBegun, rfl⟩ := hReturns.begun
  refine .traverse (hBegun.collects (Frame.traversed_gathers host g) (fun _ _ _ _ _ _ => .inl ?_)
    (Frame.traverseNext_eq_rowNext host g [] items world))
  exact fun rest collected => .traversed rest g collected

theorem takes_body {f : DoFunction κ} {args : List (Value κ)}
    (hReturns : (generator mark (.body f args)).Returns host (.pair user (.bool flag)) world value left
      steps final) :
    (generator mark (.body f args)).Takes host (.pair user (.bool flag)) world value left steps
      final := by
  obtain ⟨_, hBegun, rfl⟩ := hReturns.begun
  cases hStarted : host.start f.code args world with
  | error halt next =>
      have hFailed : (Frame.fresh (.body f args)).resume host .null world = .error halt.sealed next :=
        Exec.bind_of_error (Exec.sealed_of_error hStarted)
      rcases hBegun.resume_cases with hResumed | ⟨_, _, _, hResumed⟩
      · cases hFailed.symm.trans hResumed
      · cases hFailed.symm.trans hResumed
  | ok given next =>
      cases given with
      | value result =>
          obtain ⟨rfl, rfl, rfl, rfl⟩ := hBegun.of_returned (Exec.bind_of_ok (Exec.sealed_of_ok hStarted))
          exact .ordinary hStarted
      | coroutine t => exact .body hStarted (hBegun.performs (Exec.bind_of_ok (Exec.sealed_of_ok hStarted)))

theorem takes_altOr (hFirstPublic : first.Public) (hSecondPublic : second.Public)
    (hReturns : (generator mark (.altOr first second)).Returns host (.pair user (.bool flag)) world value
      left steps final) :
    (generator mark (.altOr first second)).Takes host (.pair user (.bool flag)) world value left steps
      final := by
  obtain ⟨_, hBegun, rfl⟩ := hReturns.begun
  obtain ⟨_, hKept, rfl⟩ := hBegun.asking_get rfl
  obtain ⟨result, last, set, n, next, m, hRan, hResult, hOnward, rfl⟩ := hKept.running hFirstPublic rfl
  cases hResult with
  | success success =>
      obtain ⟨rfl, rfl, rfl, rfl⟩ := hOnward.of_returned rfl
      rw [← Nat.add_assoc]
      exact .succeeded hRan
  | failure root children =>
      obtain ⟨_, hFlagged, rfl⟩ := hOnward.asking_get rfl
      cases set with
      | true =>
          obtain ⟨rfl, rfl, rfl, rfl⟩ :=
            hFlagged.of_returned (Frame.resume_altFlag_set host second _ _ _ _)
          rw [show 1 + (1 + (n + (1 + 0))) = 2 + n + 1 by omega]
          exact .aborted hRan
      | false =>
          obtain ⟨_, hRestored, rfl⟩ :=
            hFlagged.asking_put (Frame.resume_altFlag_clear host second _ _ _ _)
          obtain ⟨right, seen, raised, k, after, j, hAgain, hResult, hJoining, rfl⟩ :=
            hRestored.running hSecondPublic rfl
          cases hResult with
          | success success =>
              obtain ⟨rfl, rfl, rfl, rfl⟩ := hJoining.of_returned rfl
              rw [show 1 + (1 + (n + (1 + (1 + (k + 0))))) = 2 + n + 1 + (1 + k) by omega]
              exact .recovered hRan hAgain
          | failure other grandchildren =>
              obtain ⟨rfl, rfl, rfl, rfl⟩ := hJoining.of_returned rfl
              rw [show 1 + (1 + (n + (1 + (1 + (k + 0))))) = 2 + n + 1 + (1 + k) by omega]
              exact .exhausted hRan hAgain

/-- A public run that returns takes the steps that are laid down for what is run. -/
theorem Returns.takes {p : Program κ}
    (hReturns : p.Returns host (.pair user (.bool flag)) world value left steps final) :
    p.Takes host (.pair user (.bool flag)) world value left steps final := by
  cases hReturns.publicly.isPublic with
  | result hResult =>
      obtain ⟨⟨⟩, rfl⟩ := Evaluates.pure_iff.mp hReturns.runs.evaluates
      exact .result hResult
  | generator hRecipePublic =>
      cases hRecipePublic with
      | primitive hFinishes => exact takes_primitive hFinishes hReturns
      | abort reason => exact takes_abort hReturns
      | bind hPublic hContinues => exact takes_bind hPublic hContinues hReturns
      | sequence hAllPublic => exact takes_sequence hAllPublic hReturns
      | traverse items g => exact takes_traverse hReturns
      | altOr hFirstPublic hSecondPublic => exact takes_altOr hFirstPublic hSecondPublic hReturns
      | body f args => exact takes_body hReturns

end Program

end Backtrack
