import Backtrack.Proofs.Likeness

namespace Backtrack

variable {κ τ ω : Type} {host : Host κ τ ω} {R : World ω → World ω → Prop}
  {value state failure : Value κ} {steps : Nat} {exception : Raised κ}
  {world next final first second : World ω} {outcome o other : Outcome κ} {ending : Ending κ}

@[simp] theorem Outcome.after_after (earlier later : Nat) (outcome : Outcome κ) :
    (outcome.after later).after earlier = outcome.after (earlier + later) := by
  cases outcome with
  | returned value state steps => simp only [after, Nat.add_assoc]
  | raised exception => rfl

@[simp] theorem Outcome.after_zero (outcome : Outcome κ) : outcome.after 0 = outcome := by
  cases outcome with
  | returned value state steps => simp only [after, Nat.zero_add]
  | raised exception => rfl

namespace Outcomes

variable {P Q : Outcomes κ ω} {S T : Value κ → Value κ → World ω → Outcomes κ ω}

theorem after_after_iff {earlier later : Nat} :
    (P.after later).after earlier outcome final ↔ P.after (earlier + later) outcome final := by
  constructor
  · rintro ⟨_, ⟨inner, hComes, rfl⟩, rfl⟩
    exact ⟨inner, hComes, Outcome.after_after earlier later inner⟩
  · rintro ⟨inner, hComes, rfl⟩
    exact ⟨_, ⟨inner, hComes, rfl⟩, (Outcome.after_after earlier later inner).symm⟩

theorem andThen_after_iff {S : Outcome κ → World ω → Outcomes κ ω} {spent : Nat} :
    (P.andThen S).after spent outcome final ↔
      P.andThen (fun first next => (S first next).after spent) outcome final := by
  constructor
  · rintro ⟨inner, ⟨first, next, hComes, hContinues⟩, rfl⟩
    exact ⟨first, next, hComes, inner, hContinues, rfl⟩
  · rintro ⟨first, next, hComes, inner, hContinues, rfl⟩
    exact ⟨inner, ⟨first, next, hComes, hContinues⟩, rfl⟩

/-- How a whole ends whose first part has come to an outcome and left the world, if it goes on from a success
as given. -/
inductive Sequel (S : Value κ → Value κ → World ω → Outcomes κ ω) :
    Outcome κ → World ω → Outcome κ → World ω → Prop where
  | failed {failure state : Value κ} {steps : Nat} {world : World ω} :
      Sequel S (.returned (.err failure) state steps) world (.returned (.err failure) state steps) world
  | raised {exception : Raised κ} {world : World ω} :
      Sequel S (.raised exception) world (.raised exception) world
  | continued {value state : Value κ} {steps : Nat} {world final : World ω} {outcome : Outcome κ} :
      S value state world outcome final →
      Sequel S (.returned (.ok value) state steps) world (outcome.after steps) final

theorem sequel_failed_iff :
    Sequel S (.returned (.err failure) state steps) world outcome final ↔
      outcome = .returned (.err failure) state steps ∧ final = world := by
  constructor
  · intro hSequel
    cases hSequel
    exact ⟨rfl, rfl⟩
  · rintro ⟨rfl, rfl⟩
    exact .failed

theorem sequel_raised_iff :
    Sequel S (.raised exception) world outcome final ↔ outcome = .raised exception ∧ final = world := by
  constructor
  · intro hSequel
    cases hSequel
    exact ⟨rfl, rfl⟩
  · rintro ⟨rfl, rfl⟩
    exact .raised

theorem sequel_continued_iff :
    Sequel S (.returned (.ok value) state steps) world outcome final ↔
      (S value state world).after steps outcome final := by
  constructor
  · intro hSequel
    cases hSequel with
    | continued hGoesOn => exact ⟨_, hGoesOn, rfl⟩
  · rintro ⟨inner, hGoesOn, rfl⟩
    exact .continued hGoesOn

theorem after_sequel_failed_iff {spent : Nat} :
    after (Sequel S (.returned (.err failure) state steps) world) spent outcome final ↔
      outcome = .returned (.err failure) state (spent + steps) ∧ final = world := by
  have hOnly : ∀ o w, Sequel S (.returned (.err failure) state steps) world o w ↔
      o = .returned (.err failure) state steps ∧ w = world := fun _ _ => sequel_failed_iff
  exact after_of_only hOnly spent outcome final

theorem after_sequel_raised_iff {spent : Nat} :
    after (Sequel S (.raised exception) world) spent outcome final ↔
      outcome = .raised exception ∧ final = world := by
  have hOnly : ∀ o w, Sequel S (.raised exception) world o w ↔ o = .raised exception ∧ w = world :=
    fun _ _ => sequel_raised_iff
  exact after_of_only hOnly spent outcome final

theorem sequel_after_iff {spent : Nat} :
    Sequel S (o.after spent) world outcome final ↔ after (Sequel S o world) spent outcome final := by
  constructor
  · intro hSequel
    generalize hSpends : o.after spent = first at hSequel
    cases hSequel with
    | failed =>
        cases o with
        | returned =>
            cases hSpends
            exact ⟨_, .failed, rfl⟩
        | raised => cases hSpends
    | raised =>
        cases o with
        | returned => cases hSpends
        | raised =>
            cases hSpends
            exact ⟨_, .raised, rfl⟩
    | continued hGoesOn =>
        cases o with
        | returned =>
            cases hSpends
            exact ⟨_, .continued hGoesOn, (Outcome.after_after _ _ _).symm⟩
        | raised => cases hSpends
  · rintro ⟨_, hSequel, rfl⟩
    cases hSequel with
    | failed => exact .failed
    | raised => exact .raised
    | continued hGoesOn =>
        rw [Outcome.after_after]
        exact .continued hGoesOn

theorem sequel_andThen_iff :
    andThen (Sequel S o world) (Sequel T) outcome final ↔
      Sequel (fun value left next => andThen (S value left next) (Sequel T)) o world outcome final := by
  constructor
  · rintro ⟨_, _, hSequel, hOnward⟩
    cases hSequel with
    | failed =>
        obtain ⟨rfl, rfl⟩ := sequel_failed_iff.mp hOnward
        exact .failed
    | raised =>
        obtain ⟨rfl, rfl⟩ := sequel_raised_iff.mp hOnward
        exact .raised
    | continued hGoesOn =>
        obtain ⟨_, hFollows, rfl⟩ := sequel_after_iff.mp hOnward
        exact .continued ⟨_, _, hGoesOn, hFollows⟩
  · intro hSequel
    cases hSequel with
    | failed => exact ⟨_, _, .failed, .failed⟩
    | raised => exact ⟨_, _, .raised, .raised⟩
    | continued hGoesOn =>
        obtain ⟨_, _, hFirst, hOnward⟩ := hGoesOn
        exact ⟨_, _, .continued hFirst, sequel_after_iff.mpr ⟨_, hOnward, rfl⟩⟩

theorem Sequel.alike (hSame : other.result = o.result)
    (hProper : ∀ value state steps, o = .returned value state steps →
      value.isResult = true ∧ state.IsStatePair)
    (hRelated : R first second)
    (hOnward : ∀ value user flag steps, o = .returned (.ok value) (.pair user (.bool flag)) steps →
      Alike R (S value (.pair user (.bool flag)) first) (T value (.pair user (.bool flag)) second)) :
    Alike R (Sequel S o first) (Sequel T other second) := by
  cases o with
  | raised exception =>
      cases other with
      | returned => cases hSame
      | raised =>
          cases hSame
          exact .of_only (fun _ _ => sequel_raised_iff) (fun _ _ => sequel_raised_iff) rfl hRelated
  | returned value state steps =>
      cases other with
      | raised => cases hSame
      | returned value state more =>
          cases hSame
          obtain ⟨hResult, ⟨user, flag⟩⟩ := hProper _ _ _ rfl
          cases value with
          | err failure =>
              exact .of_only (fun _ _ => sequel_failed_iff) (fun _ _ => sequel_failed_iff) rfl hRelated
          | ok value =>
              refine Alike.congr ?_ (fun _ _ => sequel_continued_iff) fun _ _ => sequel_continued_iff
              exact ((hOnward value user flag steps rfl).after_left steps).after_right more
          | _ => cases hResult

theorem Alike.proper (hAlike : Alike R P Q) (hProper : Proper P) : Proper Q := by
  intro value state steps final hComes
  obtain ⟨o, last, hFound, hSame, _⟩ := hAlike.back _ final hComes
  cases o with
  | raised => cases hSame
  | returned =>
      cases hSame
      exact hProper _ _ _ _ hFound

end Outcomes

theorem Frame.yieldAlternative_of_stray {role : OperandRole} {rest : Frame κ τ}
    (hStray : ∀ mark p, value ≠ .alternative mark p) :
    (yieldAlternative role rest value : Exec κ ω (Step κ (Frame κ τ))) =
      Exec.fail (.expectedAlternative role value.typeName) := by
  cases value with
  | alternative mark p => exact absurd rfl (hStray mark p)
  | _ => rfl

theorem Ending.exists_ending_iff {Ends : Ending κ → Prop} {only : Ending κ} {condition : Prop}
    (hEnds : ∀ ending, Ends ending ↔ ending = only ∧ condition) :
    (∃ ending, Ends ending ∧ ending.outcome = outcome) ↔ outcome = only.outcome ∧ condition := by
  constructor
  · rintro ⟨ending, hEnded, rfl⟩
    obtain ⟨rfl, hHolds⟩ := (hEnds ending).mp hEnded
    exact ⟨rfl, hHolds⟩
  · rintro ⟨rfl, hHolds⟩
    exact ⟨only, (hEnds only).mpr ⟨rfl, hHolds⟩, rfl⟩

theorem Follows.relay_iff {first : Ending κ} :
    Follows host .relay first next ending final ↔ ending = first ∧ final = next := by
  cases first with
  | returned value state cost =>
      rw [Follows.returned_iff]
      constructor
      · rintro ⟨inner, hEvaluates, rfl⟩
        obtain ⟨rfl, rfl⟩ := (Evaluates.returned_iff rfl).mp hEvaluates
        exact ⟨rfl, rfl⟩
      · rintro ⟨rfl, rfl⟩
        exact ⟨_, .returned rfl, rfl⟩
  | raised exception => exact Follows.raised_iff fun _ => rfl
  | replaced exception => exact Follows.replaced_iff

/-- Sent a failure, the generator returns it, and it owes no handlers. -/
structure Frame.PassesFailures (host : Host κ τ ω) (frame : Frame κ τ) : Prop where
  failed : ∀ failure world,
    frame.resume host (.err failure) world = .ok (.returned (.err failure)) world
  idle : ∀ world, frame.close host world = .ok () world

theorem Frame.bound_passesFailures (host : Host κ τ ω) (f : Mapper κ) :
    (Frame.bound f : Frame κ τ).PassesFailures host :=
  ⟨fun _ _ => rfl, fun _ => rfl⟩

def Frame.Comes (host : Host κ τ ω) (frame : Frame κ τ) (sent state : Value κ) (world : World ω) :
    Outcomes κ ω :=
  fun outcome final => ∃ ending, Evaluates host (.generator frame sent) state world ending final ∧
    ending.outcome = outcome

namespace Frame

open Outcomes

variable {frame rest : Frame κ τ} {sent : Value κ} {start : World ω} {p : Program κ}
  {S : Value κ → Value κ → World ω → Outcomes κ ω}

theorem comes_of_returned (hResumed : frame.resume host sent world = .ok (.returned value) next) :
    frame.Comes host sent state world outcome final ↔
      outcome = .returned value state 0 ∧ final = next :=
  Ending.exists_ending_iff fun _ => Evaluates.returned_iff hResumed

theorem comes_of_raised
    (hFailed : frame.resume host sent world = .error (.raised exception) next) :
    frame.Comes host sent state world outcome final ↔ outcome = .raised exception ∧ final = next :=
  Ending.exists_ending_iff fun _ => Evaluates.resumeRaised_iff hFailed

theorem not_comes_of_exhausted (hFailed : frame.resume host sent world = .error .exhausted next) :
    ¬ frame.Comes host sent state world outcome final := by
  rintro ⟨ending, hEvaluates, _⟩
  exact Evaluates.not_of_exhausted hFailed hEvaluates

theorem comes_of_relaying
    (hResumed : frame.resume host sent world = .ok (.yielded (.program p) .relay) start) :
    frame.Comes host sent state world outcome final ↔ p.Runs host state start outcome final := by
  rw [Program.runs_iff_exists_evaluates]
  refine exists_congr fun ending => and_congr_left fun _ => ?_
  rw [Evaluates.yielded_iff hResumed]
  constructor
  · rintro ⟨inner, after, hEvaluates, hFollows⟩
    obtain ⟨rfl, rfl⟩ := Follows.relay_iff.mp hFollows
    exact hEvaluates
  · exact fun hEvaluates => ⟨ending, final, hEvaluates, Follows.relay_iff.mpr ⟨rfl, rfl⟩⟩

theorem exists_follows_iff_sequel (hPasses : rest.PassesFailures host)
    (hResult : ∀ value state steps, ending.outcome = .returned value state steps →
      value.isResult = true)
    (hGoesOn : ∀ value state steps, ending.outcome = .returned (.ok value) state steps →
      ∀ outcome, rest.Comes host (.ok value) state next outcome final ↔
        S value state next outcome final) :
    (∃ inner, Follows host rest ending next inner final ∧ inner.outcome = outcome) ↔
      Sequel S ending.outcome next outcome final := by
  cases ending with
  | returned value state cost =>
      have hGiven := hResult value state cost rfl
      simp only [Follows.returned_iff, Ending.outcome]
      cases value with
      | ok value =>
          rw [sequel_continued_iff]
          constructor
          · rintro ⟨_, ⟨inner, hContinues, rfl⟩, rfl⟩
            exact ⟨_, (hGoesOn _ _ _ rfl _).mp ⟨inner, hContinues, rfl⟩, Ending.outcome_after cost inner⟩
          · rintro ⟨_, hOnward, rfl⟩
            obtain ⟨inner, hContinues, rfl⟩ := (hGoesOn _ _ _ rfl _).mpr hOnward
            exact ⟨_, ⟨inner, hContinues, rfl⟩, Ending.outcome_after cost inner⟩
      | err failure =>
          have hResumed := hPasses.failed failure next
          rw [sequel_failed_iff]
          constructor
          · rintro ⟨_, ⟨inner, hContinues, rfl⟩, rfl⟩
            obtain ⟨rfl, rfl⟩ := (Evaluates.returned_iff hResumed).mp hContinues
            exact ⟨rfl, rfl⟩
          · rintro ⟨rfl, rfl⟩
            exact ⟨_, ⟨_, .returned hResumed, rfl⟩, rfl⟩
      | _ => cases hGiven
  | raised exception =>
      rw [Ending.outcome, sequel_raised_iff,
        Ending.exists_ending_iff fun _ => Follows.raised_iff hPasses.idle]
      rfl
  | replaced exception =>
      rw [Ending.outcome, sequel_raised_iff, Ending.exists_ending_iff fun _ => Follows.replaced_iff]
      rfl

theorem comes_iff_sequel
    (hResumed : frame.resume host sent world = .ok (.yielded (.program p) rest) start)
    (hPasses : rest.PassesFailures host) (hProper : Proper (p.Runs host state start))
    (hGoesOn : ∀ value left steps next, p.Runs host state start (.returned (.ok value) left steps) next →
      ∀ outcome final, rest.Comes host (.ok value) left next outcome final ↔
        S value left next outcome final) :
    frame.Comes host sent state world outcome final ↔
      andThen (p.Runs host state start) (Sequel S) outcome final := by
  have hFollows : ∀ {ending : Ending κ} {next : World ω},
      Evaluates host (.program p) state start ending next →
      ((∃ inner, Follows host rest ending next inner final ∧ inner.outcome = outcome) ↔
        Sequel S ending.outcome next outcome final) := by
    intro ending next hEvaluates
    have hRuns : ∀ {o}, ending.outcome = o → p.Runs host state start o next :=
      fun hEnded => Program.runs_iff_exists_evaluates.mpr ⟨ending, hEvaluates, hEnded⟩
    apply exists_follows_iff_sequel hPasses
    · intro value left steps hEnded
      exact (hProper value left steps next (hRuns hEnded)).1
    · intro value left steps hEnded outcome
      exact hGoesOn value left steps next (hRuns hEnded) outcome final
  constructor
  · rintro ⟨_, hEvaluates, rfl⟩
    obtain ⟨ending, next, hFirst, hOnward⟩ := (Evaluates.yielded_iff hResumed).mp hEvaluates
    exact ⟨ending.outcome, next, Program.runs_iff_exists_evaluates.mpr ⟨ending, hFirst, rfl⟩,
      (hFollows hFirst).mp ⟨_, hOnward, rfl⟩⟩
  · rintro ⟨_, next, hRuns, hSequel⟩
    obtain ⟨ending, hFirst, rfl⟩ := Program.runs_iff_exists_evaluates.mp hRuns
    obtain ⟨inner, hOnward, hEnded⟩ := (hFollows hFirst).mpr hSequel
    exact ⟨inner, (Evaluates.yielded_iff hResumed).mpr ⟨ending, next, hFirst, hOnward⟩, hEnded⟩

end Frame

namespace Program

open Outcomes

variable {f : Mapper κ} {p : Program κ} {mark : Mark} {r : Recipe κ}
  {S : Value κ → Value κ → World ω → Outcomes κ ω}

theorem generator_runs_iff :
    (generator mark r).Runs host state world outcome final ↔
      after ((Frame.fresh r).Comes host .null state world) 1 outcome final := by
  rw [runs_iff_exists_evaluates]
  constructor
  · rintro ⟨_, hEvaluates, rfl⟩
    obtain ⟨inner, hBegun, rfl⟩ := Evaluates.generator_iff.mp hEvaluates
    exact ⟨inner.outcome, ⟨inner, hBegun, rfl⟩, Ending.outcome_after 1 inner⟩
  · rintro ⟨_, ⟨inner, hBegun, rfl⟩, rfl⟩
    exact ⟨_, .generator hBegun, Ending.outcome_after 1 inner⟩

theorem bind_runs_iff_sequel
    (hGoesOn : ∀ value state world outcome final,
      (Frame.bound f).Comes host (.ok value) state world outcome final ↔
        S value state world outcome final)
    (hProper : Proper (p.Runs host state world)) :
    (generator mark (.bind p f)).Runs host state world outcome final ↔
      after (andThen (p.Runs host state world) (Sequel S)) 1 outcome final := by
  have hComes : ∀ o w, (Frame.fresh (.bind p f)).Comes host .null state world o w ↔
      andThen (p.Runs host state world) (Sequel S) o w := fun o w =>
    Frame.comes_iff_sequel rfl (Frame.bound_passesFailures host f) hProper
      fun _ _ _ _ _ => hGoesOn _ _ _
  rw [generator_runs_iff]
  exact exists_congr fun inner => and_congr_left fun _ => hComes inner final

end Program

end Backtrack
