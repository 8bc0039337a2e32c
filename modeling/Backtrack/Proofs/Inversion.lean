import Backtrack.Proofs.Evaluation

namespace Backtrack

variable {κ τ ω : Type} {lacking : Bool} {host : Host κ τ ω lacking} {ending : Ending κ}
  {state sent value : Value κ}
  {frame rest : Frame κ τ} {world start next final : World ω}

/-- How an evaluation ends with what is left of a generator, once the program that it yielded has ended
and left the world. -/
inductive Follows (host : Host κ τ ω lacking) (rest : Frame κ τ) :
    Ending κ → World ω → Ending κ → World ω → Prop where
  | returned {value state cost world ending final} :
      Evaluates host (.generator rest value) state world ending final →
      Follows host rest (.returned value state cost) world (ending.after cost) final
  | raised {exception world final} :
      rest.close host world = .ok () final →
      Follows host rest (.raised exception) world (.raised exception) final
  | replacing {exception other world final} :
      rest.close host world = .error (.raised other) final →
      Follows host rest (.raised exception) world (.replaced other) final
  | replaced {exception world} :
      Follows host rest (.replaced exception) world (.replaced exception) world

namespace Follows

theorem returned_iff {cost : Nat} :
    Follows host rest (.returned value state cost) world ending final ↔
      ∃ inner, Evaluates host (.generator rest value) state world inner final ∧
        ending = inner.after cost := by
  constructor
  · intro hFollows
    cases hFollows with
    | returned hEvaluates => exact ⟨_, hEvaluates, rfl⟩
  · intro hGiven
    obtain ⟨inner, hEvaluates, rfl⟩ := hGiven
    exact .returned hEvaluates

theorem raised_iff (hIdle : ∀ world, rest.close host world = .ok () world)
    {exception : Raised κ} :
    Follows host rest (.raised exception) world ending final ↔
      ending = .raised exception ∧ final = world := by
  constructor
  · intro hFollows
    cases hFollows with
    | raised hClosed =>
        rw [hIdle] at hClosed
        cases hClosed
        exact ⟨rfl, rfl⟩
    | replacing hFailed =>
        rw [hIdle] at hFailed
        cases hFailed
  · intro hGiven
    obtain ⟨rfl, rfl⟩ := hGiven
    exact .raised (hIdle final)

theorem replaced_iff {exception : Raised κ} :
    Follows host rest (.replaced exception) world ending final ↔
      ending = .replaced exception ∧ final = world := by
  constructor
  · intro hFollows
    cases hFollows
    exact ⟨rfl, rfl⟩
  · intro hGiven
    obtain ⟨rfl, rfl⟩ := hGiven
    exact .replaced

end Follows

namespace Evaluates

theorem pure_iff : Evaluates host (.program (.pure value)) state world ending final ↔
    ending = .returned value state 1 ∧ final = world := by
  constructor
  · intro hEvaluates
    cases hEvaluates
    exact ⟨rfl, rfl⟩
  · intro hGiven
    obtain ⟨rfl, rfl⟩ := hGiven
    exact .pure

theorem get_iff : Evaluates host (.program .get) state world ending final ↔
    ending = .returned state state 1 ∧ final = world := by
  constructor
  · intro hEvaluates
    cases hEvaluates
    exact ⟨rfl, rfl⟩
  · intro hGiven
    obtain ⟨rfl, rfl⟩ := hGiven
    exact .get

theorem put_iff : Evaluates host (.program (.put value)) state world ending final ↔
    ending = .returned .null value 1 ∧ final = world := by
  constructor
  · intro hEvaluates
    cases hEvaluates
    exact ⟨rfl, rfl⟩
  · intro hGiven
    obtain ⟨rfl, rfl⟩ := hGiven
    exact .put

section Modify

variable {f : Mapper κ}

theorem modify_iff (hApplied : host.applyMapper f state world = .ok value next) :
    Evaluates host (.program (.modify f)) state world ending final ↔
      ending = .returned .null value 1 ∧ final = next := by
  constructor
  · intro hEvaluates
    cases hEvaluates with
    | modify hOther =>
        rw [hApplied] at hOther
        cases hOther
        exact ⟨rfl, rfl⟩
    | modifyRaised hOther =>
        rw [hApplied] at hOther
        cases hOther
  · intro hGiven
    obtain ⟨rfl, rfl⟩ := hGiven
    exact .modify hApplied

theorem modifyRaised_iff {exception : Raised κ}
    (hFailed : host.applyMapper f state world = .error (.raised exception) next) :
    Evaluates host (.program (.modify f)) state world ending final ↔
      ending = .raised exception ∧ final = next := by
  constructor
  · intro hEvaluates
    cases hEvaluates with
    | modify hOther =>
        rw [hFailed] at hOther
        cases hOther
    | modifyRaised hOther =>
        rw [hFailed] at hOther
        cases hOther
        exact ⟨rfl, rfl⟩
  · intro hGiven
    obtain ⟨rfl, rfl⟩ := hGiven
    exact .modifyRaised hFailed

theorem not_modify_of_exhausted (hFailed : host.applyMapper f state world = .error .exhausted next) :
    ¬ Evaluates host (.program (.modify f)) state world ending final := by
  intro hEvaluates
  cases hEvaluates with
  | modify hOther | modifyRaised hOther =>
      rw [hFailed] at hOther
      cases hOther

end Modify

theorem generator_iff {mark : Mark} {r : Recipe κ} :
    Evaluates host (.program (.generator mark r)) state world ending final ↔
      ∃ inner, Evaluates host (.generator (.fresh r) .null) state world inner final ∧
        ending = inner.after 1 := by
  constructor
  · intro hEvaluates
    cases hEvaluates with
    | generator hEvaluates => exact ⟨_, hEvaluates, rfl⟩
  · intro hGiven
    obtain ⟨inner, hEvaluates, rfl⟩ := hGiven
    exact .generator hEvaluates

theorem returned_iff (hResumed : frame.resume host sent world = .ok (.returned value) next) :
    Evaluates host (.generator frame sent) state world ending final ↔
      ending = .returned value state 0 ∧ final = next := by
  constructor
  · intro hEvaluates
    cases hEvaluates with
    | returned hOther =>
        rw [hResumed] at hOther
        cases hOther
        exact ⟨rfl, rfl⟩
    | resumeRaised hOther | yielded hOther | yieldedRaised hOther | yieldedReplacing hOther
    | yieldedReplaced hOther | stray hOther | strayRaised hOther =>
        rw [hResumed] at hOther
        cases hOther
  · intro hGiven
    obtain ⟨rfl, rfl⟩ := hGiven
    exact .returned hResumed

theorem resumeRaised_iff {exception : Raised κ}
    (hFailed : frame.resume host sent world = .error (.raised exception) next) :
    Evaluates host (.generator frame sent) state world ending final ↔
      ending = .raised exception ∧ final = next := by
  constructor
  · intro hEvaluates
    cases hEvaluates with
    | resumeRaised hOther =>
        rw [hFailed] at hOther
        cases hOther
        exact ⟨rfl, rfl⟩
    | returned hOther | yielded hOther | yieldedRaised hOther | yieldedReplacing hOther
    | yieldedReplaced hOther | stray hOther | strayRaised hOther =>
        rw [hFailed] at hOther
        cases hOther
  · intro hGiven
    obtain ⟨rfl, rfl⟩ := hGiven
    exact .resumeRaised hFailed

theorem not_of_exhausted (hFailed : frame.resume host sent world = .error .exhausted next) :
    ¬ Evaluates host (.generator frame sent) state world ending final := by
  intro hEvaluates
  cases hEvaluates with
  | returned hOther | resumeRaised hOther | yielded hOther | yieldedRaised hOther
  | yieldedReplacing hOther | yieldedReplaced hOther | stray hOther | strayRaised hOther =>
      rw [hFailed] at hOther
      cases hOther

theorem halted_cases {halt : Halt κ} (hFailed : frame.resume host sent world = .error halt next)
    (hEvaluates : Evaluates host (.generator frame sent) state world ending final) :
    ∃ exception, halt = .raised exception ∧ ending = .raised exception ∧ final = next := by
  cases halt with
  | raised exception => exact ⟨exception, rfl, (resumeRaised_iff hFailed).mp hEvaluates⟩
  | exhausted => exact absurd hEvaluates (not_of_exhausted hFailed)

theorem yielded_iff {p : Program κ}
    (hResumed : frame.resume host sent world = .ok (.yielded (.program p) rest) start) :
    Evaluates host (.generator frame sent) state world ending final ↔
      ∃ inner next, Evaluates host (.program p) state start inner next ∧
        Follows host rest inner next ending final := by
  constructor
  · intro hEvaluates
    cases hEvaluates with
    | returned hOther | resumeRaised hOther =>
        rw [hResumed] at hOther
        cases hOther
    | yielded hOther hEvaluates hContinues =>
        rw [hResumed] at hOther
        cases hOther
        exact ⟨_, _, hEvaluates, .returned hContinues⟩
    | yieldedRaised hOther hEvaluates hClosed =>
        rw [hResumed] at hOther
        cases hOther
        exact ⟨_, _, hEvaluates, .raised hClosed⟩
    | yieldedReplacing hOther hEvaluates hFailed =>
        rw [hResumed] at hOther
        cases hOther
        exact ⟨_, _, hEvaluates, .replacing hFailed⟩
    | yieldedReplaced hOther hEvaluates =>
        rw [hResumed] at hOther
        cases hOther
        exact ⟨_, _, hEvaluates, .replaced⟩
    | stray hOther hStray | strayRaised hOther hStray =>
        rw [hResumed] at hOther
        cases hOther
        exact absurd rfl (hStray p)
  · intro hGiven
    obtain ⟨inner, next, hEvaluates, hFollows⟩ := hGiven
    cases hFollows with
    | returned hContinues => exact .yielded hResumed hEvaluates hContinues
    | raised hClosed => exact .yieldedRaised hResumed hEvaluates hClosed
    | replacing hFailed => exact .yieldedReplacing hResumed hEvaluates hFailed
    | replaced => exact .yieldedReplaced hResumed hEvaluates

theorem yielded_get_iff
    (hResumed : frame.resume host sent world = .ok (.yielded (.program .get) rest) start) :
    Evaluates host (.generator frame sent) state world ending final ↔
      ∃ inner, Evaluates host (.generator rest state) state start inner final ∧
        ending = inner.after 1 := by
  rw [yielded_iff hResumed]
  constructor
  · intro hGiven
    obtain ⟨inner, next, hEvaluates, hFollows⟩ := hGiven
    obtain ⟨rfl, rfl⟩ := get_iff.mp hEvaluates
    exact Follows.returned_iff.mp hFollows
  · intro hContinues
    exact ⟨_, start, .get, Follows.returned_iff.mpr hContinues⟩

theorem yielded_put_iff {replacement : Value κ}
    (hResumed : frame.resume host sent world =
      .ok (.yielded (.program (.put replacement)) rest) start) :
    Evaluates host (.generator frame sent) state world ending final ↔
      ∃ inner, Evaluates host (.generator rest .null) replacement start inner final ∧
        ending = inner.after 1 := by
  rw [yielded_iff hResumed]
  constructor
  · intro hGiven
    obtain ⟨inner, next, hEvaluates, hFollows⟩ := hGiven
    obtain ⟨rfl, rfl⟩ := put_iff.mp hEvaluates
    exact Follows.returned_iff.mp hFollows
  · intro hContinues
    exact ⟨_, start, .put, Follows.returned_iff.mpr hContinues⟩

end Evaluates

theorem Program.pure_runs_iff {outcome : Outcome κ} :
    (Program.pure value).Runs host state world outcome final ↔
      outcome = .returned value state 1 ∧ final = world := by
  rw [Program.runs_iff_exists_evaluates]
  constructor
  · rintro ⟨ending, hEvaluates, rfl⟩
    obtain ⟨rfl, rfl⟩ := Evaluates.pure_iff.mp hEvaluates
    exact ⟨rfl, rfl⟩
  · rintro ⟨rfl, rfl⟩
    exact ⟨_, .pure, rfl⟩

theorem Alternative.error_runs_iff {failure : Value κ} {outcome : Outcome κ} {mark : Mark} :
    (Program.generator mark (.map (.pure failure) .recordFailure)).Runs host state world outcome final ↔
      outcome = .returned (.failWith failure) state 2 ∧ final = world := by
  rw [Program.runs_iff_exists_evaluates]
  constructor
  · rintro ⟨_, hEvaluates, rfl⟩
    obtain ⟨_, hBegun, rfl⟩ := Evaluates.generator_iff.mp hEvaluates
    obtain ⟨_, _, hTaken, hFollows⟩ := (Evaluates.yielded_iff rfl).mp hBegun
    obtain ⟨rfl, rfl⟩ := Evaluates.pure_iff.mp hTaken
    obtain ⟨_, hMapped, rfl⟩ := Follows.returned_iff.mp hFollows
    obtain ⟨rfl, rfl⟩ := (Evaluates.returned_iff rfl).mp hMapped
    exact ⟨rfl, rfl⟩
  · rintro ⟨rfl, rfl⟩
    exact ⟨_, .generator (.yielded rfl .pure (.returned rfl)), rfl⟩

end Backtrack
