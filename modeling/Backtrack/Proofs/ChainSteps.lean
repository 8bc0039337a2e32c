import Backtrack.Proofs.Chains
import Backtrack.Proofs.StepCount

namespace Backtrack

variable {κ τ ω : Type} {host : Host κ τ ω} {pair value result left last user root : Value κ}
  {children : List (Value κ)} {flag : Bool} {steps spent cost more n m : Nat}
  {world start next final ended : World ω} {a b c : Alternative κ}
  {others before after : List (Alternative κ)}

namespace Value

/-- The steps that an alternation adds to those of a left operand that decides it with the result. -/
def passing : Value κ → Nat
  | .err _ => 3
  | _ => 2

/-- Both are the same success, or both are failures. -/
inductive SameSide : Value κ → Value κ → Prop where
  | success (value : Value κ) : SameSide (.ok value) (.ok value)
  | failure (first second : Value κ) : SameSide (.err first) (.err second)

theorem IsResult.sameSide (hResult : value.IsResult) : value.SameSide value := by
  cases hResult with
  | success value => exact .success value
  | failure root children => exact .failure _ _

theorem SameSide.trans {other : Value κ} (hSame : value.SameSide result)
    (hAgain : result.SameSide other) : value.SameSide other := by
  cases hSame with
  | success => exact hAgain
  | failure =>
      cases hAgain
      exact .failure _ _

theorem SameSide.passing_eq (hSame : value.SameSide result) : value.passing = result.passing := by
  cases hSame <;> rfl

theorem SameSide.failsClear_iff (hSame : value.SameSide result) :
    (Outcome.returned value left n).FailsClear ↔ (Outcome.returned result left m).FailsClear := by
  cases hSame with
  | success => exact iff_of_false nofun nofun
  | failure first second =>
      constructor
      · rintro ⟨_, user, _⟩
        exact .mk second user m
      · rintro ⟨_, user, _⟩
        exact .mk first user n

end Value

namespace Alternative

/-- Run one after another, each from the pair, the alternatives fail with the flag clear, in so many steps
together. -/
inductive FailSpending (host : Host κ τ ω) (pair : Value κ) :
    List (Alternative κ) → World ω → Nat → World ω → Prop where
  | nil {world : World ω} : FailSpending host pair [] world 0 world
  | cons {a : Alternative κ} {rest : List (Alternative κ)} {root user : Value κ}
      {children : List (Value κ)} {n m : Nat} {world next final : World ω} :
      a.program.Runs host pair world
        (.returned (.err (.tree root children)) (.pair user (.bool false)) n) next →
      FailSpending host pair rest next m final → FailSpending host pair (a :: rest) world (n + m) final

theorem FailSpending.concat (hFails : FailSpending host pair before world spent next)
    (hRuns : a.program.Runs host pair next
      (.returned (.err (.tree root children)) (.pair user (.bool false)) cost) final) :
    FailSpending host pair (before ++ [a]) world (spent + cost) final := by
  induction hFails with
  | nil =>
      rw [Nat.zero_add, ← Nat.add_zero cost]
      exact .cons hRuns .nil
  | cons hHead _ ih =>
      rw [Nat.add_assoc]
      exact .cons hHead (ih hRuns)

/-- Those before the operand fail in so many steps, and it decides the row with the result after so many of
its own: it does not fail with the flag clear, or none are left. -/
inductive DecidesAfter (host : Host κ τ ω) (pair : Value κ) (before : List (Alternative κ))
    (b : Alternative κ) (after : List (Alternative κ)) (world : World ω) (spent : Nat)
    (result last : Value κ) (cost : Nat) (ended : World ω) : Prop where
  | mk {next : World ω} :
      FailSpending host pair before world spent next →
      b.program.Runs host pair next (.returned result last cost) ended →
      result.IsResult → last.IsStatePair →
      after = [] ∨ ¬ (Outcome.returned result last cost).FailsClear →
      DecidesAfter host pair before b after world spent result last cost ended

/-- An operand of the row decides it, and the value and the state are those that the row is left with. -/
def ComesDown (host : Host κ τ ω) (pair : Value κ) (row : List (Alternative κ)) (world : World ω)
    (value left : Value κ) (final : World ω) : Prop :=
  ∃ before b after spent result cost ended, row = before ++ b :: after ∧
    DecidesAfter host pair before b after world spent result left cost ended ∧
    value.SameSide result ∧ host.SameTrace final ended

namespace DecidesAfter

variable {b : Alternative κ}

theorem first (hRuns : b.program.Runs host pair world (.returned result last cost) ended)
    (hResult : result.IsResult) (hPair : last.IsStatePair)
    (hDecisive : after = [] ∨ ¬ (Outcome.returned result last cost).FailsClear) :
    DecidesAfter host pair [] b after world 0 result last cost ended :=
  .mk .nil hRuns hResult hPair hDecisive

theorem cons
    (hRuns : a.program.Runs host pair world
      (.returned (.err (.tree root children)) (.pair user (.bool false)) n) next)
    (hDecides : DecidesAfter host pair before b after next spent result last cost ended) :
    DecidesAfter host pair (a :: before) b after world (n + spent) result last cost ended := by
  cases hDecides with
  | mk hFails hDecider hResult hPair hDecisive =>
      exact .mk (.cons hRuns hFails) hDecider hResult hPair hDecisive

theorem extend (hDecides : DecidesAfter host pair before b after world spent result last cost ended)
    (hStands : ¬ (Outcome.returned result last cost).FailsClear) (others : List (Alternative κ)) :
    DecidesAfter host pair before b (after ++ others) world spent result last cost ended := by
  cases hDecides with
  | mk hFails hDecider hResult hPair hDecisive => exact .mk hFails hDecider hResult hPair (.inr hStands)

theorem concat
    (hDecides : DecidesAfter host pair before b after world spent result last cost ended)
    (hFails : (Outcome.returned result last cost).FailsClear)
    (hRuns : c.program.Runs host pair ended (.returned value left n) final)
    (hResult : value.IsResult) (hPair : left.IsStatePair) :
    after = [] ∧
      DecidesAfter host pair (before ++ [b]) c [] world (spent + cost) value left n final := by
  cases hDecides with
  | mk hEarlier hDecider hGiven _ hDecisive =>
      refine ⟨hDecisive.resolve_right fun hStands => hStands hFails, ?_⟩
      cases hFails
      cases hGiven with
      | failure root children => exact .mk (hEarlier.concat hDecider) hRuns hResult hPair (.inl rfl)

end DecidesAfter

theorem altOr_returns_cases
    (hWhole : (altOr a b).program.Returns host (.pair user (.bool flag)) start value left steps final) :
    (∃ n next, a.program.Returns host (.pair user (.bool flag)) start value left n next ∧
      ¬ (Outcome.returned value left n).FailsClear ∧ host.SameTrace final next) ∨
    ∃ root children seen n next result m,
      a.program.Returns host (.pair user (.bool flag)) start (.err (.tree root children))
        (.pair seen (.bool false)) n next ∧
      b.program.Returns host (.pair user (.bool flag))
        (host.noting .backtracked (.tree root children) next) result left m final ∧
      value.SameSide result := by
  cases hWhole.takes with
  | succeeded hRan => exact .inl ⟨_, _, hRan, nofun, .refl host final⟩
  | aborted hRan => exact .inl ⟨_, _, hRan, nofun, (Host.SameTrace.refl host _).noting _ _⟩
  | recovered hRan hAgain => exact .inr ⟨_, _, _, _, _, _, _, hRan, hAgain, .success _⟩
  | exhausted hRan hAgain => exact .inr ⟨_, _, _, _, _, _, _, hRan, hAgain, .failure _ _⟩

section Groupings

variable (hIgnores : host.IgnoresJournal)
include hIgnores

theorem comesDown_of_returns
    (hRan : a.program.Returns host (.pair user (.bool flag)) start value left n next)
    (hSame : host.SameTrace start world) (hKept : host.SameTrace final next)
    (hDecisive : others = [] ∨ ¬ (Outcome.returned value left n).FailsClear) :
    ComesDown host (.pair user (.bool flag)) (a :: others) world value left final := by
  obtain ⟨ended, hRuns, hAgain⟩ := hIgnores.runs hRan.runs hSame
  obtain ⟨hResult, hPair⟩ := hRan.proper
  exact ⟨[], a, others, 0, value, n, ended, rfl, .first hRuns hResult hPair hDecisive,
    hResult.sameSide, hKept.trans hAgain⟩

theorem altOrRightAssoc_comesDown
    (hWhole : (altOrRightAssoc a others).program.Returns host (.pair user (.bool flag)) start value left
      steps final) (hSame : host.SameTrace start world) :
    ComesDown host (.pair user (.bool flag)) (a :: others) world value left final := by
  induction others generalizing a start world value steps with
  | nil => exact comesDown_of_returns hIgnores hWhole hSame (.refl host final) (.inl rfl)
  | cons b others ih =>
      rcases altOr_returns_cases hWhole with
        ⟨n, next, hRan, hStands, hKept⟩ | ⟨root, children, seen, n, next, result, m, hRan, hAgain, hSide⟩
      · exact comesDown_of_returns hIgnores hRan hSame hKept (.inr hStands)
      · obtain ⟨after, hRuns, hRelated⟩ := hIgnores.runs hRan.runs hSame
        obtain ⟨before, c, rest, spent, decided, cost, ended, hRow, hDecides, hSides, hKept⟩ :=
          ih hAgain (hRelated.noting .backtracked (.tree root children))
        exact ⟨a :: before, c, rest, n + spent, decided, cost, ended, congrArg (a :: ·) hRow,
          hDecides.cons hRuns, hSide.trans hSides, hKept⟩

theorem choice_comesDown
    (hWhole : (choice a others).program.Returns host (.pair user (.bool flag)) start value left
      steps final) (hSame : host.SameTrace start world) :
    ComesDown host (.pair user (.bool flag)) (a :: others) world value left final := by
  induction others using List.reverseRecOn generalizing value left steps final with
  | nil => exact comesDown_of_returns hIgnores hWhole hSame (.refl host final) (.inl rfl)
  | append_singleton others d ih =>
      rw [choice_concat] at hWhole
      rcases altOr_returns_cases hWhole with
        ⟨n, next, hRan, hStands, hKept⟩ | ⟨root, children, seen, n, next, result, m, hRan, hAgain, hSide⟩
      · obtain ⟨before, c, rest, spent, decided, cost, ended, hRow, hDecides, hSides, hRelated⟩ := ih hRan
        refine ⟨before, c, rest ++ [d], spent, decided, cost, ended, ?_, ?_, hSides,
          hKept.trans hRelated⟩
        · rw [← List.cons_append, hRow, List.append_assoc, List.cons_append]
        · exact hDecides.extend (mt hSides.failsClear_iff.mpr hStands) [d]
      · obtain ⟨before, c, rest, spent, decided, cost, ended, hRow, hDecides, hSides, hRelated⟩ := ih hRan
        obtain ⟨last, hRuns, hKept⟩ := hIgnores.runs hAgain.runs (hRelated.noting _ _)
        obtain ⟨hResult, hPair⟩ := hAgain.proper
        obtain ⟨rfl, hLonger⟩ :=
          hDecides.concat (hSides.failsClear_iff.mp (.mk _ _ n)) hRuns hResult hPair
        refine ⟨before ++ [c], d, [], _, result, m, last, ?_, hLonger, hSide, hKept⟩
        rw [← List.cons_append, hRow]

end Groupings

theorem altOr_runs_of_standing
    (hRuns : a.program.Runs host pair start (.returned value left n) next)
    (hResult : value.IsResult) (hPair : left.IsStatePair)
    (hStands : ¬ (Outcome.returned value left n).FailsClear) :
    ∃ final, host.SameTrace final next ∧
      (altOr a b).program.Runs host pair start (.returned value left (n + value.passing)) final := by
  have hWhole : ∀ {ending final}, Evaluates host (.generator (.altLeft b.program pair) value) left next
      ending final → (altOr a b).program.Runs host pair start (ending.after (2 + n)).outcome final := by
    intro ending final hOnward
    apply Program.runs_iff_exists_evaluates.mpr
    refine ⟨_, Evaluates.altOr_iff.mpr ⟨_, next, _, hRuns.evaluates, .returned hOnward, rfl⟩, ?_⟩
    rw [Ending.after_after]
  cases hResult with
  | success success =>
      have hEnded := hWhole (Evaluates.altLeft_ok_iff.mpr ⟨rfl, rfl⟩)
      rw [Nat.add_comm 2 n] at hEnded
      exact ⟨next, .refl host next, hEnded⟩
  | failure root children =>
      obtain ⟨user, set⟩ := hPair
      cases set with
      | false => exact absurd (.mk _ user n) hStands
      | true =>
          have hEnded := hWhole (Evaluates.altLeft_set_iff.mpr ⟨rfl, rfl⟩)
          have hSpent : 2 + n + 1 = n + 3 := by omega
          simp only [Ending.after, Ending.outcome, hSpent] at hEnded
          exact ⟨_, (Host.SameTrace.refl host next).noting _ _, hEnded⟩

theorem altOr_runs_of_retrying
    (hRuns : a.program.Runs host pair start
      (.returned (.err (.tree root children)) (.pair user (.bool false)) n) next)
    (hAgain : b.program.Runs host pair (host.noting .backtracked (.tree root children) next)
      (.returned result last m) final) (hResult : result.IsResult) :
    ∃ value, value.IsResult ∧ value.SameSide result ∧
      (altOr a b).program.Runs host pair start (.returned value last (n + m + 4)) final := by
  have hSpent : 2 + (n + (2 + m)) = n + m + 4 := by omega
  have hWhole : ∀ {value}, Evaluates host (.generator (.altRight (.err (.tree root children))) result)
      last final (.returned value last 0) final →
      (altOr a b).program.Runs host pair start (.returned value last (n + m + 4)) final := by
    intro value hOnward
    have hRetried : Evaluates host (.generator (.altLeft b.program pair) (.err (.tree root children)))
        (.pair user (.bool false)) next (.returned value last (2 + m)) final :=
      Evaluates.altLeft_clear_iff.mpr ⟨_, final, _, hAgain.evaluates, .returned hOnward, rfl⟩
    apply Program.runs_iff_exists_evaluates.mpr
    refine ⟨_, Evaluates.altOr_iff.mpr ⟨_, next, _, hRuns.evaluates, .returned hRetried, rfl⟩, ?_⟩
    simp only [Ending.after, Ending.outcome, hSpent]
  cases hResult with
  | success success =>
      exact ⟨_, .success success, .success success, hWhole (Evaluates.altRight_ok_iff.mpr ⟨rfl, rfl⟩)⟩
  | failure other grandchildren =>
      exact ⟨_, .failure _ _, .failure _ _, hWhole (Evaluates.altRight_err_iff.mpr ⟨rfl, rfl⟩)⟩

theorem choice_runs_of_decided
    (hRuns : a.program.Runs host pair start (.returned value left n) next)
    (hResult : value.IsResult) (hPair : left.IsStatePair)
    (hDecisive : others = [] ∨ ¬ (Outcome.returned value left n).FailsClear) :
    ∃ final, (choice a others).program.Runs host pair start
      (.returned value left (n + others.length * value.passing)) final := by
  induction others generalizing a n next with
  | nil =>
      rw [List.length_nil, Nat.zero_mul]
      exact ⟨next, hRuns⟩
  | cons b others ih =>
      have hStands := hDecisive.resolve_left (List.cons_ne_nil _ _)
      obtain ⟨middle, _, hPassed⟩ := altOr_runs_of_standing (b := b) hRuns hResult hPair hStands
      have hStill : ¬ (Outcome.returned value left (n + value.passing)).FailsClear :=
        mt hResult.sameSide.failsClear_iff.mp hStands
      obtain ⟨final, hEnded⟩ := ih hPassed (.inr hStill)
      have hSpent : n + value.passing + others.length * value.passing =
          n + (b :: others).length * value.passing := by
        rw [List.length_cons, Nat.succ_mul]
        omega
      exact ⟨final, hSpent ▸ hEnded⟩

section Counts

variable (hIgnores : host.IgnoresJournal)
include hIgnores

theorem choice_runs_of_failed {b : Alternative κ}
    (hRuns : a.program.Runs host pair start
      (.returned (.err (.tree root children)) (.pair user (.bool false)) n) next)
    (hSame : host.SameTrace world next)
    (hDecides : DecidesAfter host pair before b after world spent result last cost ended) :
    ∃ value final, (choice a (before ++ b :: after)).program.Runs host pair start
      (.returned value last
        (n + (spent + cost + 4 * (before.length + 1)) + after.length * result.passing)) final := by
  obtain ⟨hFails, hDecider, hResult, hPair, hDecisive⟩ := hDecides
  induction hFails generalizing a root children user n next with
  | nil =>
      obtain ⟨_, hAgain, _⟩ :=
        hIgnores.runs hDecider (hSame.symm.noting .backtracked (.tree root children)).symm
      obtain ⟨value, hValueResult, hSide, hJoined⟩ := altOr_runs_of_retrying hRuns hAgain hResult
      obtain ⟨final, hWhole⟩ := choice_runs_of_decided hJoined hValueResult hPair
        (hDecisive.imp_right (mt hSide.failsClear_iff.mp))
      have hTotal : n + cost + 4 + after.length * value.passing =
          n + (0 + cost + 4 * (0 + 1)) + after.length * result.passing := by
        rw [hSide.passing_eq]
        omega
      exact ⟨value, final, hTotal ▸ hWhole⟩
  | @cons x rest other seen grandchildren k m _ _ _ hHead _ ih =>
      obtain ⟨after, hAgain, hKept⟩ :=
        hIgnores.runs hHead (hSame.symm.noting .backtracked (.tree root children)).symm
      obtain ⟨_, hJoinedResult, hSide, hJoined⟩ :=
        altOr_runs_of_retrying hRuns hAgain (.failure other grandchildren)
      cases hSide
      cases hJoinedResult with
      | failure whole under =>
          obtain ⟨value, final, hRan⟩ := ih hJoined hKept hDecider
          have hTotal : n + k + 4 + (m + cost + 4 * (rest.length + 1)) =
              n + (k + m + cost + 4 * ((x :: rest).length + 1)) := by
            rw [List.length_cons]
            omega
          exact ⟨value, final, hTotal ▸ hRan⟩

theorem choice_runs_of_decides {b : Alternative κ} (hRow : a :: others = before ++ b :: after)
    (hDecides : DecidesAfter host pair before b after world spent result last cost ended) :
    ∃ value final, (choice a others).program.Runs host pair world
      (.returned value last (spent + cost + 4 * before.length + after.length * result.passing))
      final := by
  obtain ⟨hFails, hDecider, hResult, hPair, hDecisive⟩ := hDecides
  cases hFails with
  | nil =>
      obtain ⟨rfl, rfl⟩ := List.cons.inj hRow
      obtain ⟨final, hRan⟩ := choice_runs_of_decided hDecider hResult hPair hDecisive
      have hTotal : cost = 0 + cost + 4 * 0 := by omega
      exact ⟨result, final, hTotal ▸ hRan⟩
  | @cons _ rest _ _ _ k m _ _ _ hHead hFails =>
      obtain ⟨rfl, rfl⟩ := List.cons.inj hRow
      obtain ⟨value, final, hRan⟩ := choice_runs_of_failed hIgnores hHead (.refl host _)
        (.mk hFails hDecider hResult hPair hDecisive)
      have hTotal : k + (m + cost + 4 * (rest.length + 1)) =
          k + m + cost + 4 * (a :: rest).length := by
        rw [List.length_cons]
        omega
      exact ⟨value, final, hTotal ▸ hRan⟩

theorem altOrRightAssoc_runs_of_decides {b : Alternative κ}
    (hRow : a :: others = before ++ b :: after) (hSame : host.SameTrace world start)
    (hDecides : DecidesAfter host pair before b after world spent result last cost ended) :
    ∃ value final, value.IsResult ∧ (altOrRightAssoc a others).program.Runs host pair start
      (.returned value last
        (spent + cost + 4 * before.length + min after.length 1 * result.passing)) final := by
  obtain ⟨hFails, hDecider, hResult, hPair, hDecisive⟩ := hDecides
  induction hFails generalizing a others start with
  | nil =>
      obtain ⟨rfl, rfl⟩ := List.cons.inj hRow
      obtain ⟨final, hRan, _⟩ := hIgnores.runs hDecider hSame
      cases others with
      | nil =>
          refine ⟨result, final, hResult, ?_⟩
          simpa [altOrRightAssoc] using hRan
      | cons c others =>
          obtain ⟨last, _, hPassed⟩ := altOr_runs_of_standing (b := altOrRightAssoc c others) hRan
            hResult hPair (hDecisive.resolve_left (List.cons_ne_nil _ _))
          refine ⟨result, last, hResult, ?_⟩
          simpa [altOrRightAssoc] using hPassed
  | @cons x rest root seen children k m _ _ _ hHead _ ih =>
      obtain ⟨rfl, hOthers_eq⟩ := List.cons.inj hRow
      obtain ⟨next, hRan, hKept⟩ := hIgnores.runs hHead hSame
      obtain ⟨c, later, hTail⟩ : ∃ c later, rest ++ b :: after = c :: later :=
        List.exists_cons_of_ne_nil (by simp)
      obtain rfl : others = c :: later := hOthers_eq.trans hTail
      obtain ⟨_, final, hResult, hOnward⟩ :=
        ih hTail.symm (hKept.symm.noting .backtracked (.tree root children)).symm hDecider
      obtain ⟨value, hValueResult, _, hJoined⟩ := altOr_runs_of_retrying hRan hOnward hResult
      have hTotal : k + (m + cost + 4 * rest.length + min after.length 1 * result.passing) + 4 =
          k + m + cost + 4 * (a :: rest).length + min after.length 1 * result.passing := by
        rw [List.length_cons]
        omega
      exact ⟨value, final, hValueResult, hTotal ▸ hJoined⟩

end Counts

/-- The steps of a run are those that are laid down for what is run, part by part. Hence, where one of the
two groupings of a row returns, both do, and they come down to the same operand: those before it fail in turn,
and each of them takes four steps besides its own. The left grouping takes as many more steps as it hands the
result on through further alternations, which the right grouping does once at most. -/
theorem steps_accounted (host : Host κ τ ω) :
    (∀ (a : Alternative κ) user flag world value left steps final,
      a.program.Returns host (.pair user (.bool flag)) world value left steps final →
        a.program.Takes host (.pair user (.bool flag)) world value left steps final) ∧
    (host.IgnoresJournal → ∀ (a : Alternative κ) others user flag world,
      (∃ value left steps final, (choice a others).program.Returns host (.pair user (.bool flag)) world
          value left steps final ∨
        (altOrRightAssoc a others).program.Returns host (.pair user (.bool flag)) world
          value left steps final) →
      ∃ before b after spent result last cost ended leftward rightward,
        a :: others = before ++ b :: after ∧
        DecidesAfter host (.pair user (.bool flag)) before b after world spent result last cost ended ∧
        (∃ value final, (choice a others).program.Runs host (.pair user (.bool flag)) world
          (.returned value last leftward) final) ∧
        (∃ value final, (altOrRightAssoc a others).program.Runs host (.pair user (.bool flag)) world
          (.returned value last rightward) final) ∧
        rightward = spent + cost + 4 * before.length + min after.length 1 * result.passing ∧
        leftward = rightward + (after.length - 1) * result.passing) := by
  refine ⟨fun _ _ _ _ _ _ _ _ hReturns => hReturns.takes, ?_⟩
  rintro hIgnores a others user flag world ⟨value, left, steps, final, hReturns⟩
  have hComes : ComesDown host (.pair user (.bool flag)) (a :: others) world value left final := by
    rcases hReturns with hReturns | hReturns
    · exact choice_comesDown hIgnores hReturns (.refl host world)
    · exact altOrRightAssoc_comesDown hIgnores hReturns (.refl host world)
  obtain ⟨before, b, after, spent, result, cost, ended, hRow, hDecides, _, _⟩ := hComes
  obtain ⟨_, _, hLeftward⟩ := choice_runs_of_decides hIgnores hRow hDecides
  obtain ⟨_, _, _, hRightward⟩ :=
    altOrRightAssoc_runs_of_decides hIgnores hRow (.refl host world) hDecides
  refine ⟨before, b, after, spent, result, left, cost, ended, _, _, hRow, hDecides, ⟨_, _, hLeftward⟩,
    ⟨_, _, hRightward⟩, rfl, ?_⟩
  have hSplit : after.length * result.passing =
      min after.length 1 * result.passing + (after.length - 1) * result.passing := by
    rw [← Nat.add_mul]
    congr 1
    omega
  rw [hSplit, Nat.add_assoc _ (min after.length 1 * result.passing)]

/-- A body aborts in an alternation, and as the second of four operands: the left grouping of these takes
fifteen steps and the right one twelve. -/
theorem steps_accounted_under_body :
    stopped.program.Takes Host.aborter (.pair (.int 5) (.bool false)) ⟨0, #[], 0⟩
      (.err (.leaf (.str "stop"))) (.pair (.int 5) (.bool true)) 6 ⟨1, #[], 0⟩ ∧
    ∃ before b after spent result last cost ended,
      [error (.str "a"), ofCall ⟨none, none, [], ()⟩ [], inject (.int 1), inject (.int 2)] =
        before ++ b :: after ∧
      DecidesAfter Host.aborter (.pair (.int 5) (.bool false)) before b after ⟨0, #[], 0⟩ spent result
        last cost ended ∧
      12 = spent + cost + 4 * before.length + min after.length 1 * result.passing ∧
      15 = 12 + (after.length - 1) * result.passing := by
  obtain ⟨hTakes, hGroupings⟩ := steps_accounted Host.aborter
  have hPublicly : ∀ {a : Alternative Unit}, a.Public → a.program.RunsPublicly Host.aborter
      (.pair (.int 5) (.bool false)) ⟨0, #[], 0⟩ := fun hPublic =>
    hPublic.program_public.runsPublicly (fun _ => Host.aborter_offers) (.int 5) false ⟨0, #[], 0⟩
  refine ⟨hTakes stopped _ _ _ _ _ _ _ ⟨hPublicly stopped_public, 40, rfl⟩, ?_⟩
  let body : Alternative Unit := ofCall ⟨none, none, [], ()⟩ []
  have hOthersPublic : ∀ a ∈ [body, inject (.int 1), inject (.int 2)], a.Public := by
    simp only [List.forall_mem_cons]
    exact ⟨.ofCall _ [], .inject _, .inject _, nofun⟩
  have hLeft : (choice (error (.str "a")) [body, inject (.int 1), inject (.int 2)]).program.Runs
      Host.aborter (.pair (.int 5) (.bool false)) ⟨0, #[], 0⟩
      (.returned (.err (.tree (.str "a") [.leaf (.str "stop")])) (.pair (.int 5) (.bool true)) 15)
      ⟨1, #[], 0⟩ := ⟨60, rfl⟩
  have hRight : (altOrRightAssoc (error (.str "a")) [body, inject (.int 1), inject (.int 2)]).program.Runs
      Host.aborter (.pair (.int 5) (.bool false)) ⟨0, #[], 0⟩
      (.returned (.err (.tree (.str "a") [.leaf (.str "stop")])) (.pair (.int 5) (.bool true)) 12)
      ⟨1, #[], 0⟩ := ⟨60, rfl⟩
  obtain ⟨before, b, after, spent, result, last, cost, ended, _, _, hRow, hDecides, ⟨_, _, hLeftRuns⟩,
      ⟨_, _, hRightRuns⟩, hRightward, hLeftward⟩ :=
    hGroupings nofun (error (.str "a")) [body, inject (.int 1), inject (.int 2)] (.int 5) false
      ⟨0, #[], 0⟩ ⟨_, _, _, _, .inl ⟨hPublicly (.choice (.error _) hOthersPublic), hLeft⟩⟩
  obtain ⟨⟨⟩, _⟩ := hLeftRuns.unique hLeft
  obtain ⟨⟨⟩, _⟩ := hRightRuns.unique hRight
  exact ⟨before, b, after, spent, result, _, cost, ended, hRow, hDecides, hRightward, hLeftward⟩

end Alternative

end Backtrack
