import Backtrack.Proofs.Sequencing

/-! Continuing with whatever a computation returns. A program that maps or binds another one goes on
from every value of that, be it a success, a failure or no result at all; only an exception stands.
What is asked of the host first may raise as well, and goes on from what the host answers.

Outcomes that are the same are equal, so the laws of continuing are equations. -/

namespace Backtrack

variable {κ τ ω α β : Type} {host : Host κ τ ω} {R : World ω → World ω → Prop}
  {value state sent : Value κ} {steps : Nat} {exception : Raised κ}
  {world next start final : World ω} {outcome o : Outcome κ}

namespace Outcomes

variable {P Q V : Outcomes κ ω} {S T : Value κ → Value κ → World ω → Outcomes κ ω}

theorem eq_of_iff (hSame : ∀ outcome final, P outcome final ↔ Q outcome final) : P = Q := by
  funext outcome final
  exact propext (hSame outcome final)

theorem after_after (earlier later : Nat) :
    (P.after later).after earlier = P.after (earlier + later) :=
  eq_of_iff fun _ _ => after_after_iff

theorem after_zero : P.after 0 = P := by
  apply eq_of_iff
  intro outcome final
  constructor
  · rintro ⟨inner, hComes, rfl⟩
    rwa [Outcome.after_zero]
  · exact fun hComes => ⟨outcome, hComes, (Outcome.after_zero outcome).symm⟩

def returning (value state : Value κ) (world : World ω) : Outcomes κ ω :=
  fun outcome final => outcome = .returned value state 0 ∧ final = world

theorem returning_iff :
    returning value state world outcome final ↔ outcome = .returned value state 0 ∧ final = world :=
  Iff.rfl

theorem Alike.returning (hRelated : R start next) :
    Alike R (returning value state start) (returning value state next) :=
  .of_only (fun _ _ => returning_iff) (fun _ _ => returning_iff) rfl hRelated

/-- How a whole ends whose first part has come to an outcome and left the world, if it goes on from a
return as given. -/
inductive Onto (S : Value κ → Value κ → World ω → Outcomes κ ω) :
    Outcome κ → World ω → Outcomes κ ω where
  | raised {exception : Raised κ} {world : World ω} :
      Onto S (.raised exception) world (.raised exception) world
  | continued {value state : Value κ} {steps : Nat} {world final : World ω} {outcome : Outcome κ} :
      S value state world outcome final →
      Onto S (.returned value state steps) world (outcome.after steps) final

theorem onto_raised_iff :
    Onto S (.raised exception) world outcome final ↔ outcome = .raised exception ∧ final = world := by
  constructor
  · intro hOnto
    cases hOnto
    exact ⟨rfl, rfl⟩
  · rintro ⟨rfl, rfl⟩
    exact .raised

theorem onto_returned :
    Onto S (.returned value state steps) world = (S value state world).after steps := by
  apply eq_of_iff
  intro outcome final
  constructor
  · intro hOnto
    cases hOnto with
    | continued hGoesOn => exact ⟨_, hGoesOn, rfl⟩
  · rintro ⟨inner, hGoesOn, rfl⟩
    exact .continued hGoesOn

theorem onto_after (spent : Nat) : Onto S (o.after spent) world = after (Onto S o world) spent := by
  cases o with
  | raised exception =>
      have hOnly : ∀ o w, Onto S (.raised exception) world o w ↔ o = .raised exception ∧ w = world :=
        fun _ _ => onto_raised_iff
      apply eq_of_iff
      intro outcome final
      rw [after_of_only hOnly]
      exact onto_raised_iff
  | returned value state steps => rw [Outcome.after, onto_returned, onto_returned, after_after]

theorem after_andThen_onto (spent : Nat) :
    andThen (P.after spent) (Onto S) = (andThen P (Onto S)).after spent := by
  apply eq_of_iff
  intro outcome final
  constructor
  · rintro ⟨_, next, ⟨inner, hComes, rfl⟩, hOnto⟩
    rw [onto_after] at hOnto
    obtain ⟨last, hEnds, rfl⟩ := hOnto
    exact ⟨last, ⟨inner, next, hComes, hEnds⟩, rfl⟩
  · rintro ⟨last, ⟨inner, next, hComes, hEnds⟩, rfl⟩
    refine ⟨_, next, ⟨inner, hComes, rfl⟩, ?_⟩
    rw [onto_after]
    exact ⟨last, hEnds, rfl⟩

theorem andThen_onto_assoc :
    andThen (andThen P (Onto S)) (Onto T) =
      andThen P (Onto fun value left next => andThen (S value left next) (Onto T)) := by
  apply eq_of_iff
  intro outcome final
  rw [andThen_assoc]
  refine exists_congr fun o => exists_congr fun next => and_congr_right fun _ => ?_
  cases o with
  | raised exception =>
      rw [onto_raised_iff]
      exact (andThen_of_only (fun _ _ => onto_raised_iff) outcome final).trans onto_raised_iff
  | returned value left steps =>
      rw [onto_returned, ← after_andThen_onto, ← onto_returned]

theorem andThen_returning : andThen P (Onto returning) = P := by
  have hKept : ∀ (o : Outcome κ) (w : World ω) outcome final,
      Onto returning o w outcome final ↔ outcome = o ∧ final = w := by
    intro o w outcome final
    cases o with
    | raised exception => exact onto_raised_iff
    | returned value state steps =>
        rw [onto_returned, after_of_only fun _ _ => returning_iff]
        rfl
  apply eq_of_iff
  intro outcome final
  constructor
  · rintro ⟨o, w, hComes, hOnto⟩
    obtain ⟨rfl, rfl⟩ := (hKept o w _ _).mp hOnto
    exact hComes
  · exact fun hComes => ⟨outcome, final, hComes, (hKept _ _ _ _).mpr ⟨rfl, rfl⟩⟩

theorem returning_andThen :
    andThen (returning value state world) (Onto S) = S value state world := by
  apply eq_of_iff
  intro outcome final
  rw [andThen_of_only fun _ _ => returning_iff, onto_returned, after_zero]

theorem andThen_onto_congr
    (hSame : ∀ value state steps world, P (.returned value state steps) world →
      S value state world = T value state world) : andThen P (Onto S) = andThen P (Onto T) := by
  apply eq_of_iff
  intro outcome final
  refine exists_congr fun o => exists_congr fun next => and_congr_right fun hComes => ?_
  cases o with
  | raised exception => rw [onto_raised_iff, onto_raised_iff]
  | returned value state steps =>
      rw [onto_returned, onto_returned, hSame value state steps next hComes]

theorem Alike.onto_same (hReflexive : ∀ x, R x x)
    (hOnward : ∀ value state steps world, P (.returned value state steps) world →
      Alike R (S value state world) (T value state world)) :
    Alike R (P.andThen (Onto S)) (P.andThen (Onto T)) where
  into := by
    rintro outcome final ⟨o, w, hComes, hOnto⟩
    cases hOnto with
    | raised => exact ⟨_, final, ⟨_, final, hComes, .raised⟩, rfl, hReflexive final⟩
    | continued hGoesOn =>
        obtain ⟨other, last, hFound, hSame, hRelated⟩ := (hOnward _ _ _ w hComes).into _ final hGoesOn
        exact ⟨_, last, ⟨_, w, hComes, .continued hFound⟩, by simpa using hSame, hRelated⟩
  back := by
    rintro outcome final ⟨o, w, hComes, hOnto⟩
    cases hOnto with
    | raised => exact ⟨_, final, ⟨_, final, hComes, .raised⟩, rfl, hReflexive final⟩
    | continued hGoesOn =>
        obtain ⟨other, last, hFound, hSame, hRelated⟩ := (hOnward _ _ _ w hComes).back _ final hGoesOn
        exact ⟨_, last, ⟨_, w, hComes, .continued hFound⟩, by simpa using hSame, hRelated⟩

theorem Alike.onto (hAlike : Alike R P Q)
    (hOnward : ∀ value state steps first second, P (.returned value state steps) first →
      R first second → Alike R (S value state first) (T value state second)) :
    Alike R (P.andThen (Onto S)) (Q.andThen (Onto T)) := by
  apply hAlike.andThen
  intro o first other second hComes _ hSame hRelated
  cases o with
  | raised exception =>
      obtain rfl := Outcome.raised_of_result hSame
      exact .of_only (fun _ _ => onto_raised_iff) (fun _ _ => onto_raised_iff) rfl hRelated
  | returned value state steps =>
      obtain ⟨more, rfl⟩ := Outcome.returned_of_result hSame
      rw [onto_returned, onto_returned]
      exact ((hOnward value state steps first second hComes hRelated).after_left steps).after_right more

end Outcomes

open Outcomes

/-- What the host's answer leads to. An exception stands. -/
inductive Exec.Leads (S : α → World ω → Outcomes κ ω) :
    EStateM.Result (Halt κ) (World ω) α → Outcomes κ ω where
  | ok {a : α} {next final : World ω} {outcome : Outcome κ} :
      S a next outcome final → Leads S (.ok a next) outcome final
  | raised {exception : Raised κ} {next : World ω} :
      Leads S (.error (.raised exception) next) (.raised exception) next

namespace Exec

variable {S : α → World ω → Outcomes κ ω} {T : β → World ω → Outcomes κ ω} {a : α}

theorem leads_ok : Leads S (.ok a next) = S a next := by
  apply eq_of_iff
  intro outcome final
  constructor
  · intro hLeads
    cases hLeads with
    | ok hOnward => exact hOnward
  · exact .ok

theorem leads_raised_iff :
    Leads S (.error (.raised exception) next) outcome final ↔
      outcome = .raised exception ∧ final = next := by
  constructor
  · intro hLeads
    cases hLeads
    exact ⟨rfl, rfl⟩
  · rintro ⟨rfl, rfl⟩
    exact .raised

theorem not_leads_exhausted : ¬ Leads S (.error .exhausted next) outcome final := by
  intro hLeads
  cases hLeads

theorem leads_bind {x : Exec κ ω α} {f : α → Exec κ ω β} :
    Leads T ((x >>= f) world) = Leads (fun a next => Leads T (f a next)) (x world) := by
  cases hAsked : x world with
  | ok a next => rw [Exec.bind_of_ok hAsked, leads_ok]
  | error halt next =>
      rw [Exec.bind_of_error hAsked]
      apply eq_of_iff
      intro outcome final
      cases halt with
      | raised exception => rw [leads_raised_iff, leads_raised_iff]
      | exhausted => exact iff_of_false not_leads_exhausted not_leads_exhausted

theorem leads_after {result : EStateM.Result (Halt κ) (World ω) α} (spent : Nat) :
    Leads (fun a next => (S a next).after spent) result = after (Leads S result) spent := by
  cases result with
  | ok a next => rw [leads_ok, leads_ok]
  | error halt next =>
      apply eq_of_iff
      intro outcome final
      cases halt with
      | raised exception =>
          rw [leads_raised_iff, after_of_only fun _ _ => leads_raised_iff]
          rfl
      | exhausted =>
          refine iff_of_false not_leads_exhausted ?_
          rintro ⟨_, hLeads, _⟩
          exact not_leads_exhausted hLeads

theorem leads_andThen_onto {result : EStateM.Result (Halt κ) (World ω) α}
    {C : Value κ → Value κ → World ω → Outcomes κ ω} :
    andThen (Leads S result) (Onto C) =
      Leads (fun a next => andThen (S a next) (Onto C)) result := by
  cases result with
  | ok a next => rw [leads_ok, leads_ok]
  | error halt next =>
      apply eq_of_iff
      intro outcome final
      cases halt with
      | raised exception =>
          rw [andThen_of_only fun _ _ => leads_raised_iff, onto_raised_iff, leads_raised_iff]
      | exhausted =>
          refine iff_of_false ?_ not_leads_exhausted
          rintro ⟨_, _, hLeads, _⟩
          exact not_leads_exhausted hLeads

theorem MatchesBy.leads {V : α → β → Prop} {result : EStateM.Result (Halt κ) (World ω) α}
    {answer : EStateM.Result (Halt κ) (World ω) β} (hMatched : MatchesBy V R result answer)
    (hOnward : ∀ a b first second, V a b → R first second → Alike R (S a first) (T b second)) :
    Alike R (Leads S result) (Leads T answer) := by
  cases hMatched with
  | ok hHeld hRelated =>
      rw [leads_ok, leads_ok]
      exact hOnward _ _ _ _ hHeld hRelated
  | @error halt _ _ hRelated =>
      cases halt with
      | raised exception =>
          exact .of_only (fun _ _ => leads_raised_iff) (fun _ _ => leads_raised_iff) rfl hRelated
      | exhausted =>
          exact .of_never (fun _ _ => not_leads_exhausted) fun _ _ => not_leads_exhausted

end Exec

namespace Frame

variable {frame rest : Frame κ τ} {p : Program κ} {S : α → World ω → Outcomes κ ω}

theorem comes_eq_leads {x : Exec κ ω α} {k : α → Exec κ ω (Step κ (Frame κ τ))}
    (hResumes : frame.resume host sent world = (x >>= k) world)
    (hAnswered : ∀ a next, frame.resume host sent world = k a next →
      frame.Comes host sent state world = S a next) :
    frame.Comes host sent state world = Exec.Leads S (x world) := by
  cases hAsked : x world with
  | ok a next =>
      rw [Exec.leads_ok]
      exact hAnswered a next (hResumes.trans (Exec.bind_of_ok hAsked))
  | error halt next =>
      have hFailed := hResumes.trans (Exec.bind_of_error hAsked)
      apply eq_of_iff
      intro outcome final
      cases halt with
      | raised exception => rw [Exec.leads_raised_iff, comes_of_raised hFailed]
      | exhausted => exact iff_of_false (not_comes_of_exhausted hFailed) Exec.not_leads_exhausted

theorem exists_follows_iff_onto {ending : Ending κ}
    (hIdle : ∀ world, rest.close host world = .ok () world) :
    (∃ inner, Follows host rest ending next inner final ∧ inner.outcome = outcome) ↔
      Onto (rest.Comes host) ending.outcome next outcome final := by
  cases ending with
  | returned value state cost =>
      simp only [Follows.returned_iff, Ending.outcome]
      rw [onto_returned]
      constructor
      · rintro ⟨_, ⟨inner, hContinues, rfl⟩, rfl⟩
        exact ⟨_, ⟨inner, hContinues, rfl⟩, Ending.outcome_after cost inner⟩
      · rintro ⟨_, ⟨inner, hContinues, rfl⟩, rfl⟩
        exact ⟨_, ⟨inner, hContinues, rfl⟩, Ending.outcome_after cost inner⟩
  | raised exception =>
      rw [Ending.outcome, onto_raised_iff,
        Ending.exists_ending_iff fun _ => Follows.raised_iff hIdle]
      rfl
  | replaced exception =>
      rw [Ending.outcome, onto_raised_iff, Ending.exists_ending_iff fun _ => Follows.replaced_iff]
      rfl

theorem comes_eq_onto
    (hResumed : frame.resume host sent world = .ok (.yielded (.program p) rest) start)
    (hIdle : ∀ world, rest.close host world = .ok () world) :
    frame.Comes host sent state world =
      andThen (p.Runs host state start) (Onto (rest.Comes host)) := by
  apply eq_of_iff
  intro outcome final
  constructor
  · rintro ⟨_, hEvaluates, rfl⟩
    obtain ⟨ending, next, hFirst, hOnward⟩ := (Evaluates.yielded_iff hResumed).mp hEvaluates
    exact ⟨ending.outcome, next, Program.runs_iff_exists_evaluates.mpr ⟨ending, hFirst, rfl⟩,
      (exists_follows_iff_onto hIdle).mp ⟨_, hOnward, rfl⟩⟩
  · rintro ⟨_, next, hRuns, hOnto⟩
    obtain ⟨ending, hFirst, rfl⟩ := Program.runs_iff_exists_evaluates.mp hRuns
    obtain ⟨inner, hOnward, hEnded⟩ := (exists_follows_iff_onto hIdle).mpr hOnto
    exact ⟨inner, (Evaluates.yielded_iff hResumed).mpr ⟨ending, next, hFirst, hOnward⟩, hEnded⟩

end Frame

namespace Program

variable {S : Value κ → Value κ → World ω → Outcomes κ ω}

theorem generator_runs {mark : Mark} {r : Recipe κ} :
    (generator mark r).Runs host state world =
      ((Frame.fresh r).Comes host .null state world).after 1 :=
  eq_of_iff fun _ _ => generator_runs_iff

theorem pure_runs :
    (Program.pure value).Runs host state world = (returning value state world).after 1 := by
  apply eq_of_iff
  intro outcome final
  rw [pure_runs_iff, after_of_only fun _ _ => returning_iff]
  rfl

theorem bind_runs {mark : Mark} {p : Program κ} {f : Mapper κ} :
    (generator mark (.bind p f)).Runs host state world =
      (andThen (p.Runs host state world) (Onto ((Frame.bound f).Comes host))).after 1 := by
  rw [generator_runs, Frame.comes_eq_onto rfl fun _ => rfl]

end Program

end Backtrack
