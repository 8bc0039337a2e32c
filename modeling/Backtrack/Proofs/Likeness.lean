import Backtrack.Proofs.Alternation
import Backtrack.Proofs.Unrolling
import Backtrack.Result

/-! Runs that are alike. Two computations are alike if each comes to whatever the other comes to, in
corresponding worlds and whatever steps they take; so neither ends if the other does not. Which worlds
correspond is left open: those with the same trace, say. -/

namespace Backtrack

variable {κ τ ω α β : Type}

/-- The results correspond in corresponding worlds, or both computations halt in the same way. -/
inductive Exec.MatchesBy (V : α → β → Prop) (R : World ω → World ω → Prop) :
    EStateM.Result (Halt κ) (World ω) α → EStateM.Result (Halt κ) (World ω) β → Prop where
  | ok {a b first second} : V a b → R first second → MatchesBy V R (.ok a first) (.ok b second)
  | error {halt first second} : R first second →
      MatchesBy V R (.error halt first) (.error halt second)

namespace Exec.MatchesBy

variable {V W : α → β → Prop} {R : World ω → World ω → Prop}

theorem imp {result : EStateM.Result (Halt κ) (World ω) α}
    {answer : EStateM.Result (Halt κ) (World ω) β} (hWeaker : ∀ a b, V a b → W a b)
    (hMatched : MatchesBy V R result answer) : MatchesBy W R result answer := by
  cases hMatched with
  | ok hHeld hRelated => exact .ok (hWeaker _ _ hHeld) hRelated
  | error hRelated => exact .error hRelated

theorem symm {result : EStateM.Result (Halt κ) (World ω) α}
    {answer : EStateM.Result (Halt κ) (World ω) β} (hMatched : MatchesBy V R result answer) :
    MatchesBy (flip V) (flip R) answer result := by
  cases hMatched with
  | ok hHeld hRelated => exact .ok hHeld hRelated
  | error hRelated => exact .error hRelated

theorem of_ok {a : α} {first : World ω} {answer : EStateM.Result (Halt κ) (World ω) β}
    (hMatched : MatchesBy V R (.ok a first) answer) :
    ∃ b second, answer = .ok b second ∧ V a b ∧ R first second := by
  cases hMatched with
  | ok hHeld hRelated => exact ⟨_, _, rfl, hHeld, hRelated⟩

theorem of_error {halt : Halt κ} {first : World ω} {answer : EStateM.Result (Halt κ) (World ω) β}
    (hMatched : MatchesBy V R (.error halt first) answer) :
    ∃ second, answer = .error halt second ∧ R first second := by
  cases hMatched with
  | error hRelated => exact ⟨_, rfl, hRelated⟩

theorem bind {γ δ : Type} {S : γ → δ → Prop} {x : Exec κ ω α} {y : Exec κ ω β}
    {f : α → Exec κ ω γ} {g : β → Exec κ ω δ} {first second : World ω}
    (hMatched : MatchesBy V R (x first) (y second))
    (hOnward : ∀ a b first second, V a b → R first second → MatchesBy S R (f a first) (g b second)) :
    MatchesBy S R ((x >>= f) first) ((y >>= g) second) := by
  generalize hRan : x first = result at hMatched
  generalize hAnswered : y second = answer at hMatched
  cases hMatched with
  | ok hHeld hRelated =>
      rw [Exec.bind_of_ok hRan, Exec.bind_of_ok hAnswered]
      exact hOnward _ _ _ _ hHeld hRelated
  | error hRelated =>
      rw [Exec.bind_of_error hRan, Exec.bind_of_error hAnswered]
      exact .error hRelated

theorem sealed {x : Exec κ ω α} {y : Exec κ ω β} {first second : World ω}
    (hMatched : MatchesBy V R (x first) (y second)) :
    MatchesBy V R (x.sealed first) (y.sealed second) := by
  generalize hRan : x first = result at hMatched
  generalize hAnswered : y second = answer at hMatched
  cases hMatched with
  | ok hHeld hRelated =>
      rw [Exec.sealed_of_ok hRan, Exec.sealed_of_ok hAnswered]
      exact .ok hHeld hRelated
  | error hRelated =>
      rw [Exec.sealed_of_error hRan, Exec.sealed_of_error hAnswered]
      exact .error hRelated

end Exec.MatchesBy

@[simp] theorem Outcome.result_after (spent : Nat) (outcome : Outcome κ) :
    (outcome.after spent).result = outcome.result := by
  cases outcome <;> rfl

theorem Value.IsResult.isResult {value : Value κ} (hResult : value.IsResult) :
    value.isResult = true := by
  cases hResult <;> rfl

/-- What a computation may come to, and in which worlds. -/
abbrev Outcomes (κ ω : Type) : Type := Outcome κ → World ω → Prop

namespace Outcomes

variable {R : World ω → World ω → Prop} {P Q : Outcomes κ ω}

/-- To each outcome of the first there is one of the second with the same result, in a corresponding
world. -/
def Within (R : World ω → World ω → Prop) (P Q : Outcomes κ ω) : Prop :=
  ∀ outcome final, P outcome final →
    ∃ other last, Q other last ∧ other.result = outcome.result ∧ R final last

structure Alike (R : World ω → World ω → Prop) (P Q : Outcomes κ ω) : Prop where
  into : Within R P Q
  back : Within (flip R) Q P

def andThen (P : Outcomes κ ω) (S : Outcome κ → World ω → Outcomes κ ω) : Outcomes κ ω :=
  fun outcome final => ∃ first next, P first next ∧ S first next outcome final

def after (P : Outcomes κ ω) (spent : Nat) : Outcomes κ ω :=
  fun outcome final => ∃ inner, P inner final ∧ outcome = inner.after spent

/-- A return gives a success or a failure of any kind, and a state pair. -/
def Proper (P : Outcomes κ ω) : Prop :=
  ∀ value state steps final, P (.returned value state steps) final →
    value.isResult = true ∧ state.IsStatePair

theorem andThen_of_only {S : Outcome κ → World ω → Outcomes κ ω} {only : Outcome κ} {world : World ω}
    (hHolds : ∀ o w, P o w ↔ o = only ∧ w = world) (outcome : Outcome κ) (final : World ω) :
    P.andThen S outcome final ↔ S only world outcome final := by
  constructor
  · rintro ⟨first, next, hComes, hContinues⟩
    obtain ⟨rfl, rfl⟩ := (hHolds first next).mp hComes
    exact hContinues
  · exact fun hContinues => ⟨only, world, (hHolds _ _).mpr ⟨rfl, rfl⟩, hContinues⟩

theorem after_of_only {only : Outcome κ} {world : World ω}
    (hHolds : ∀ o w, P o w ↔ o = only ∧ w = world) (spent : Nat) (outcome : Outcome κ)
    (final : World ω) : P.after spent outcome final ↔ outcome = only.after spent ∧ final = world := by
  constructor
  · rintro ⟨inner, hComes, rfl⟩
    obtain ⟨rfl, rfl⟩ := (hHolds inner final).mp hComes
    exact ⟨rfl, rfl⟩
  · rintro ⟨rfl, rfl⟩
    exact ⟨only, (hHolds _ _).mpr ⟨rfl, rfl⟩, rfl⟩

theorem andThen_assoc {S T : Outcome κ → World ω → Outcomes κ ω} (outcome : Outcome κ)
    (final : World ω) :
    (P.andThen S).andThen T outcome final ↔
      P.andThen (fun first next => (S first next).andThen T) outcome final := by
  constructor
  · rintro ⟨second, last, ⟨first, next, hComes, hContinues⟩, hEnds⟩
    exact ⟨first, next, hComes, second, last, hContinues, hEnds⟩
  · rintro ⟨first, next, hComes, second, last, hContinues, hEnds⟩
    exact ⟨second, last, ⟨first, next, hComes, hContinues⟩, hEnds⟩

theorem Within.of_only {outcome other : Outcome κ} {final last : World ω}
    (hOnly : ∀ o w, P o w ↔ o = outcome ∧ w = final) (hHolds : Q other last)
    (hSame : other.result = outcome.result) (hRelated : R final last) : Within R P Q := by
  intro o w hComes
  obtain ⟨rfl, rfl⟩ := (hOnly o w).mp hComes
  exact ⟨other, last, hHolds, hSame, hRelated⟩

theorem Alike.of_only {outcome other : Outcome κ} {final last : World ω}
    (hOnly : ∀ o w, P o w ↔ o = outcome ∧ w = final)
    (hOtherOnly : ∀ o w, Q o w ↔ o = other ∧ w = last)
    (hSame : other.result = outcome.result) (hRelated : R final last) : Alike R P Q where
  into := .of_only hOnly ((hOtherOnly _ _).mpr ⟨rfl, rfl⟩) hSame hRelated
  back := .of_only hOtherOnly ((hOnly _ _).mpr ⟨rfl, rfl⟩) hSame.symm hRelated

theorem Alike.of_never (hNever : ∀ o w, ¬ P o w) (hOtherNever : ∀ o w, ¬ Q o w) : Alike R P Q where
  into o w hComes := absurd hComes (hNever o w)
  back o w hComes := absurd hComes (hOtherNever o w)

theorem Alike.of_refl (hReflexive : ∀ x, R x x) (P : Outcomes κ ω) : Alike R P P where
  into outcome final hComes := ⟨outcome, final, hComes, rfl, hReflexive final⟩
  back outcome final hComes := ⟨outcome, final, hComes, rfl, hReflexive final⟩

theorem Alike.refl (P : Outcomes κ ω) : Alike Eq P P := .of_refl (fun _ => rfl) P

theorem Alike.congr {P' Q' : Outcomes κ ω} (hAlike : Alike R P Q)
    (hSame : ∀ o w, P' o w ↔ P o w) (hOtherSame : ∀ o w, Q' o w ↔ Q o w) : Alike R P' Q' where
  into o w hComes := by
    obtain ⟨other, last, hFound, hRest⟩ := hAlike.into o w ((hSame o w).mp hComes)
    exact ⟨other, last, (hOtherSame other last).mpr hFound, hRest⟩
  back o w hComes := by
    obtain ⟨other, last, hFound, hRest⟩ := hAlike.back o w ((hOtherSame o w).mp hComes)
    exact ⟨other, last, (hSame other last).mpr hFound, hRest⟩

theorem Alike.symm (hAlike : Alike R P Q) : Alike (flip R) Q P := ⟨hAlike.back, hAlike.into⟩

theorem Alike.swap (hSymmetric : ∀ {x y}, R x y → R y x) (hAlike : Alike R P Q) : Alike R Q P where
  into outcome final hComes := by
    obtain ⟨other, last, hFound, hSame, hMet⟩ := hAlike.back outcome final hComes
    exact ⟨other, last, hFound, hSame, hSymmetric hMet⟩
  back outcome final hComes := by
    obtain ⟨other, last, hFound, hSame, hMet⟩ := hAlike.into outcome final hComes
    exact ⟨other, last, hFound, hSame, hSymmetric hMet⟩

theorem Alike.trans_of {V : Outcomes κ ω} (hTransitive : ∀ {x y z}, R x y → R y z → R x z)
    (hAlike : Alike R P Q) (hOnward : Alike R Q V) : Alike R P V where
  into outcome final hComes := by
    obtain ⟨middle, between, hFound, hSame, hMet⟩ := hAlike.into outcome final hComes
    obtain ⟨other, last, hEnds, hAgain, hMeets⟩ := hOnward.into middle between hFound
    exact ⟨other, last, hEnds, hAgain.trans hSame, hTransitive hMet hMeets⟩
  back outcome final hComes := by
    obtain ⟨middle, between, hFound, hSame, hMet⟩ := hOnward.back outcome final hComes
    obtain ⟨other, last, hEnds, hAgain, hMeets⟩ := hAlike.back middle between hFound
    exact ⟨other, last, hEnds, hAgain.trans hSame, hTransitive hMeets hMet⟩

theorem Alike.after_left (hAlike : Alike R P Q) (spent : Nat) : Alike R (P.after spent) Q where
  into := by
    rintro _ final ⟨inner, hComes, rfl⟩
    obtain ⟨other, last, hFound, hSame, hRelated⟩ := hAlike.into inner final hComes
    exact ⟨other, last, hFound, by simpa using hSame, hRelated⟩
  back outcome final hComes := by
    obtain ⟨other, last, hFound, hSame, hRelated⟩ := hAlike.back outcome final hComes
    exact ⟨_, last, ⟨other, hFound, rfl⟩, by simpa using hSame, hRelated⟩

theorem Alike.after_right (hAlike : Alike R P Q) (spent : Nat) : Alike R P (Q.after spent) :=
  (hAlike.symm.after_left spent).symm

theorem Alike.andThen {S T : Outcome κ → World ω → Outcomes κ ω} (hAlike : Alike R P Q)
    (hOnward : ∀ first next other last, P first next → Q other last →
      other.result = first.result → R next last → Alike R (S first next) (T other last)) :
    Alike R (P.andThen S) (Q.andThen T) where
  into := by
    rintro outcome final ⟨first, next, hComes, hContinues⟩
    obtain ⟨other, last, hFound, hSame, hRelated⟩ := hAlike.into first next hComes
    obtain ⟨ending, ended, hAnswers, hRest⟩ :=
      (hOnward first next other last hComes hFound hSame hRelated).into outcome final hContinues
    exact ⟨ending, ended, ⟨other, last, hFound, hAnswers⟩, hRest⟩
  back := by
    rintro outcome final ⟨other, last, hFound, hContinues⟩
    obtain ⟨first, next, hComes, hSame, hRelated⟩ := hAlike.back other last hFound
    obtain ⟨ending, ended, hAnswers, hRest⟩ :=
      (hOnward first next other last hComes hFound hSame.symm hRelated).back outcome final hContinues
    exact ⟨ending, ended, ⟨first, next, hComes, hAnswers⟩, hRest⟩

end Outcomes

namespace Alternative

variable {host : Host κ τ ω} {R : World ω → World ω → Prop} {a b : Alternative κ}

/-- Started from any state pair, the alternative returns a success or a failure and leaves a state pair, if
it returns. -/
def GivesResults (host : Host κ τ ω) (a : Alternative κ) : Prop :=
  ∀ user flag world, Outcomes.Proper (a.program.Runs host (.pair user (.bool flag)) world)

/-- From every state pair, in corresponding worlds, the alternatives run to the same results and final
pairs or raise the same exceptions, in corresponding worlds again; or neither run ends. -/
def RunsLike (R : World ω → World ω → Prop) (host : Host κ τ ω) (a b : Alternative κ) : Prop :=
  ∀ user flag first second, R first second →
    Outcomes.Alike R (a.program.Runs host (.pair user (.bool flag)) first)
      (b.program.Runs host (.pair user (.bool flag)) second)

theorem WellBehaved.givesResults (hBehaved : a.WellBehaved host) : a.GivesResults host := by
  intro user flag world value state steps final hRuns
  obtain ⟨hResult, hPair⟩ := hBehaved user flag world value state steps final hRuns
  exact ⟨hResult.isResult, hPair⟩

theorem RunsLike.refl (host : Host κ τ ω) (a : Alternative κ) : a.RunsLike Eq host a := by
  rintro user flag world _ rfl
  exact .refl _

end Alternative

end Backtrack
