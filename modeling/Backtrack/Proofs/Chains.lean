import Backtrack.Proofs.Commitment
import Backtrack.Proofs.Trials
import Backtrack.Value.Operators

/-! The failure tree of a chain. Both groupings try their operands in a row, each from the pair in which the
row began, and the same operand decides. They differ in where the trees of those before it go: under the root
of the first one, or each tree under the one before. -/

namespace Backtrack

variable {κ τ ω : Type} {host : Host κ τ ω} {pair state value failure user : Value κ} {flag : Bool}
  {children trees : List (Value κ)} {steps : Nat} {world next final first second : World ω}
  {outcome o other : Outcome κ} {a b : Alternative κ} {row others before after : List (Alternative κ)}

namespace Value

def leftward : List (Value κ) → Value κ → Value κ
  | tree value children :: later, last => tree value (children ++ later ++ [last])
  | _, last => last

def rightward : List (Value κ) → Value κ → Value κ
  | tree value children :: later, last => tree value (children ++ [rightward later last])
  | _, last => last

end Value

namespace Outcome

inductive FailsClear : Outcome κ → Prop where
  | mk (failure user : Value κ) (steps : Nat) :
      FailsClear (.returned (.err failure) (.pair user (.bool false)) steps)

/-- The outcome with its failure tree changed, if it is a failure. -/
def grafted (graft : Value κ → Value κ) : Outcome κ → Outcome κ
  | .returned (.err failure) state steps => .returned (.err (graft failure)) state steps
  | other => other

end Outcome

namespace Alternative

inductive FailInTurn (host : Host κ τ ω) (pair : Value κ) :
    List (Alternative κ) → World ω → List (Value κ) → World ω → Prop where
  | nil {world : World ω} : FailInTurn host pair [] world [] world
  | cons {a : Alternative κ} {rest : List (Alternative κ)} {value user : Value κ}
      {children trees : List (Value κ)} {steps : Nat} {world next final : World ω} :
      a.program.Runs host pair world
        (.returned (.err (.tree value children)) (.pair user (.bool false)) steps) next →
      FailInTurn host pair rest next trees final →
      FailInTurn host pair (a :: rest) world (.tree value children :: trees) final

/-- An operand comes to the outcome and decides the row: those before it fail with the trees in turn, and it
does not fail so, or is the last. -/
inductive Decides (host : Host κ τ ω) (pair : Value κ) :
    List (Alternative κ) → World ω → List (Value κ) → Outcome κ → World ω → Prop where
  | mk {before after : List (Alternative κ)} {a : Alternative κ} {trees : List (Value κ)}
      {outcome : Outcome κ} {world next final : World ω} :
      FailInTurn host pair before world trees next →
      a.program.Runs host pair next outcome final → after = [] ∨ ¬ outcome.FailsClear →
      Decides host pair (before ++ a :: after) world trees outcome final

def Trials (host : Host κ τ ω) (pair : Value κ) (graft : List (Value κ) → Value κ → Value κ)
    (row : List (Alternative κ)) (world : World ω) : Outcomes κ ω :=
  fun outcome final => ∃ trees decided, Decides host pair row world trees decided final ∧
    outcome = decided.grafted (graft trees)

/-- How a row goes on after an outcome: after a failure that leaves the flag clear the rest is run, and its
failure joined to the tree. -/
inductive Onward (rest : World ω → Outcomes κ ω) : Outcome κ → World ω → Outcome κ → World ω → Prop where
  | decided {outcome : Outcome κ} {world : World ω} :
      ¬ outcome.FailsClear → Onward rest outcome world outcome world
  | joined {value user : Value κ} {children : List (Value κ)} {steps : Nat} {world final : World ω}
      {outcome : Outcome κ} :
      rest world outcome final →
      Onward rest (.returned (.err (.tree value children)) (.pair user (.bool false)) steps) world
        (outcome.joinedTo value children) final

open Outcomes

variable {R : World ω → World ω → Prop} {rest : World ω → Outcomes κ ω}

theorem onward_decided_iff (hDecided : ¬ o.FailsClear) :
    Onward rest o world outcome final ↔ outcome = o ∧ final = world := by
  constructor
  · intro hOnward
    cases hOnward with
    | decided => exact ⟨rfl, rfl⟩
    | joined => exact absurd (.mk _ _ _) hDecided
  · rintro ⟨rfl, rfl⟩
    exact .decided hDecided

theorem onward_joined_iff :
    Onward rest (.returned (.err (.tree value children)) (.pair user (.bool false)) steps) world outcome
        final ↔
      ∃ inner, rest world inner final ∧ outcome = inner.joinedTo value children := by
  constructor
  · intro hOnward
    cases hOnward with
    | decided hDecided => exact absurd (.mk _ _ _) hDecided
    | joined hComes => exact ⟨_, hComes, rfl⟩
  · rintro ⟨inner, hComes, rfl⟩
    exact .joined hComes

end Alternative

@[simp] theorem Outcome.grafted_leftward_nil (outcome : Outcome κ) :
    outcome.grafted (Value.leftward []) = outcome := by
  unfold grafted
  split <;> rfl

@[simp] theorem Outcome.grafted_rightward_nil (outcome : Outcome κ) :
    outcome.grafted (Value.rightward []) = outcome := by
  unfold grafted
  split <;> rfl

theorem Outcome.grafted_rightward_cons (inner : Outcome κ) :
    inner.grafted (Value.rightward (.tree value children :: trees)) =
      (inner.grafted (Value.rightward trees)).joinedTo value children := by
  cases inner with
  | raised => rfl
  | returned result state steps => cases result <;> rfl

theorem Outcome.failsClear_grafted_iff {graft : Value κ → Value κ} :
    (o.grafted graft).FailsClear ↔ o.FailsClear := by
  constructor
  · intro hFails
    generalize hChanged : o.grafted graft = outcome at hFails
    obtain ⟨failure, user, steps⟩ := hFails
    cases o with
    | raised => cases hChanged
    | returned result state cost =>
        cases result with
        | err =>
            cases hChanged
            exact .mk _ _ _
        | _ => cases hChanged
  · rintro ⟨failure, user, steps⟩
    exact .mk _ _ _

namespace Alternative

open Outcomes

variable {R : World ω → World ω → Prop} {rest : World ω → Outcomes κ ω}

theorem failInTurn_concat_iff :
    FailInTurn host pair (before ++ [a]) world trees final ↔
      ∃ earlier value children user steps next, trees = earlier ++ [.tree value children] ∧
        FailInTurn host pair before world earlier next ∧
        a.program.Runs host pair next
          (.returned (.err (.tree value children)) (.pair user (.bool false)) steps) final := by
  induction before generalizing world trees with
  | nil =>
      constructor
      · intro hFail
        cases hFail with
        | cons hRuns hNone =>
            cases hNone
            exact ⟨[], _, _, _, _, world, rfl, .nil, hRuns⟩
      · rintro ⟨earlier, value, children, user, steps, next, rfl, hNone, hRuns⟩
        cases hNone
        exact .cons hRuns .nil
  | cons first before ih =>
      constructor
      · intro hFail
        cases hFail with
        | cons hHead hFail =>
            obtain ⟨earlier, value, children, user, steps, next, rfl, hEarlierFail, hRuns⟩ := ih.mp hFail
            exact ⟨_ :: earlier, value, children, user, steps, next, rfl, .cons hHead hEarlierFail, hRuns⟩
      · rintro ⟨earlier, value, children, user, steps, next, rfl, hFail, hRuns⟩
        cases hFail with
        | cons hHead hFail =>
            exact .cons hHead (ih.mpr ⟨_, value, children, user, steps, next, rfl, hFail, hRuns⟩)

theorem FailInTurn.leftward_concat (hFail : FailInTurn host pair before world trees next)
    (value : Value κ) (children : List (Value κ)) :
    ∃ root whole, Value.leftward trees (.tree value children) = .tree root whole ∧
      ∀ inner : Outcome κ, inner.grafted (Value.leftward (trees ++ [.tree value children])) =
        inner.joinedTo root whole := by
  cases hFail with
  | nil =>
      refine ⟨value, children, rfl, fun inner => ?_⟩
      cases inner with
      | raised => rfl
      | returned result state steps =>
          cases result with
          | err => simp [Outcome.grafted, Outcome.joinedTo, Value.leftward]
          | _ => rfl
  | cons =>
      refine ⟨_, _, rfl, fun inner => ?_⟩
      cases inner with
      | raised => rfl
      | returned result state steps =>
          cases result with
          | err => simp [Outcome.grafted, Outcome.joinedTo, Value.leftward]
          | _ => rfl

theorem trials_singleton_iff {graft : List (Value κ) → Value κ → Value κ}
    (hUnchanged : ∀ outcome : Outcome κ, outcome.grafted (graft []) = outcome) :
    Trials host pair graft [a] world outcome final ↔ a.program.Runs host pair world outcome final := by
  constructor
  · rintro ⟨trees, decided, hDecides, rfl⟩
    generalize hWhole : [a] = row at hDecides
    cases hDecides with
    | mk hFail hRuns =>
        cases hFail with
        | nil =>
            obtain ⟨rfl, _⟩ := List.cons.inj hWhole
            rw [hUnchanged]
            exact hRuns
        | cons => simp at hWhole
  · exact fun hRuns => ⟨[], outcome, .mk .nil hRuns (.inl rfl), (hUnchanged outcome).symm⟩

theorem trials_rightward_iff :
    Trials host pair Value.rightward (a :: b :: others) world outcome final ↔
      andThen (a.program.Runs host pair world)
        (Onward (Trials host pair Value.rightward (b :: others))) outcome final := by
  constructor
  · rintro ⟨trees, decided, hDecides, rfl⟩
    generalize hWhole : a :: b :: others = row at hDecides
    cases hDecides with
    | mk hFail hRuns hDecisive =>
        cases hFail with
        | nil =>
            obtain ⟨rfl, rfl⟩ := List.cons.inj hWhole
            rw [Outcome.grafted_rightward_nil]
            exact ⟨_, _, hRuns, .decided (by simpa using hDecisive)⟩
        | cons hFirst hFail =>
            obtain ⟨rfl, hTail⟩ := List.cons.inj hWhole
            rw [hTail, Outcome.grafted_rightward_cons]
            exact ⟨_, _, hFirst, .joined ⟨_, _, .mk hFail hRuns hDecisive, rfl⟩⟩
  · rintro ⟨_, _, hFirst, hOnward⟩
    cases hOnward with
    | decided hDecided =>
        exact ⟨[], outcome, .mk .nil hFirst (.inr hDecided), by simp⟩
    | joined hComes =>
        obtain ⟨trees, decided, hDecides, rfl⟩ := hComes
        generalize b :: others = row at hDecides ⊢
        cases hDecides with
        | mk hFail hRuns hDecisive =>
            exact ⟨_, decided, .mk (.cons hFirst hFail) hRuns hDecisive,
              (Outcome.grafted_rightward_cons decided).symm⟩

theorem trials_leftward_iff (hBehaved : ∀ c ∈ a :: others, c.WellBehaved host) :
    Trials host (.pair user (.bool flag)) Value.leftward (a :: others ++ [b]) world outcome final ↔
      andThen (Trials host (.pair user (.bool flag)) Value.leftward (a :: others) world)
        (Onward (b.program.Runs host (.pair user (.bool flag)))) outcome final := by
  constructor
  · rintro ⟨trees, decided, hDecides, rfl⟩
    generalize hWhole : a :: others ++ [b] = row at hDecides
    cases hDecides with
    | @mk before after c _ _ _ _ _ hFail hRuns hDecisive =>
        rcases List.eq_nil_or_concat after with rfl | ⟨after, last, rfl⟩
        · obtain ⟨rfl, ⟨⟩⟩ := List.append_inj' hWhole rfl
          obtain ⟨init, last, hEnds⟩ := List.eq_nil_or_concat (a :: others) |>.resolve_left nofun
          rw [List.concat_eq_append] at hEnds
          rw [hEnds, failInTurn_concat_iff] at hFail
          obtain ⟨earlier, value, children, left, steps, next, rfl, hFail, hLastRuns⟩ := hFail
          obtain ⟨root, under, hJoins, hGrafts⟩ := hFail.leftward_concat value children
          rw [hGrafts, hEnds]
          refine ⟨_, _, ⟨earlier, _, .mk hFail hLastRuns (.inl rfl), rfl⟩, ?_⟩
          rw [Outcome.grafted, hJoins]
          exact .joined hRuns
        · have hUndecided : ¬ decided.FailsClear := by simpa using hDecisive
          rw [List.concat_eq_append, ← List.cons_append, ← List.append_assoc] at hWhole
          obtain ⟨hRow_eq, _⟩ := List.append_inj' hWhole rfl
          rw [hRow_eq]
          exact ⟨_, _, ⟨trees, decided, .mk hFail hRuns (.inr hUndecided), rfl⟩,
            .decided (mt Outcome.failsClear_grafted_iff.mp hUndecided)⟩
  · rintro ⟨_, between, ⟨trees, decided, hDecides, rfl⟩, hOnward⟩
    generalize hWhole : a :: others = row at hDecides hBehaved
    cases hDecides with
    | @mk before after c _ _ _ next _ hFail hRuns hDecisive =>
        generalize hChanged : decided.grafted (Value.leftward trees) = grafted at hOnward
        cases hOnward with
        | decided hUndecided =>
            subst hChanged
            refine ⟨trees, decided, ?_, rfl⟩
            rw [List.append_assoc]
            exact .mk hFail hRuns (.inr (mt Outcome.failsClear_grafted_iff.mpr hUndecided))
        | joined hLast =>
            have hClear : decided.FailsClear := by
              rw [← Outcome.failsClear_grafted_iff, hChanged]
              exact .mk _ _ _
            obtain rfl : after = [] := hDecisive.resolve_right fun hNo => hNo hClear
            obtain ⟨failure, left, steps⟩ := hClear
            obtain ⟨hResult, _⟩ := hBehaved c (by simp) user flag _ _ _ _ _ hRuns
            cases hResult with
            | failure value children =>
                obtain ⟨root, under, hJoins, hGrafts⟩ := hFail.leftward_concat value children
                rw [Outcome.grafted, hJoins] at hChanged
                cases hChanged
                refine ⟨trees ++ [.tree value children], _, ?_, (hGrafts _).symm⟩
                exact .mk (failInTurn_concat_iff.mpr
                  ⟨trees, value, children, _, _, next, rfl, hFail, hRuns⟩) hLast (.inl rfl)

theorem runsLike_of_ignoresJournal (hIgnores : host.IgnoresJournal) (a : Alternative κ) :
    a.RunsLike host.SameTrace host a := by
  intro user flag first second hSame
  constructor
  · intro outcome final hRuns
    obtain ⟨last, hAgain, hKept⟩ := hIgnores.runs hRuns hSame
    exact ⟨outcome, last, hAgain, rfl, hKept⟩
  · intro outcome final hRuns
    obtain ⟨last, hAgain, hKept⟩ := hIgnores.runs hRuns hSame.symm
    exact ⟨outcome, last, hAgain, rfl, hKept.symm⟩

theorem resolves_onward_alike (hSame : other.result = o.result)
    (hResult : ∀ value state steps, o = .returned value state steps →
      value.IsResult ∧ state.IsStatePair)
    (hRelated : host.SameTrace first second)
    (hAlike : ∀ first second, host.SameTrace first second →
      Alike host.SameTrace (b.program.Runs host state first) (rest second)) :
    Alike host.SameTrace (Resolves host b state o first) (Onward rest other second) := by
  cases o with
  | raised exception =>
      obtain rfl := Outcome.raised_of_result hSame
      exact .of_only (fun _ _ => resolves_raised_iff) (fun _ _ => onward_decided_iff nofun) rfl hRelated
  | returned value last steps =>
      obtain ⟨more, rfl⟩ := Outcome.returned_of_result hSame
      obtain ⟨hGiven, ⟨user, set⟩⟩ := hResult _ _ _ rfl
      cases hGiven with
      | success value =>
          exact .of_only (fun _ _ => resolves_succeeded_iff) (fun _ _ => onward_decided_iff nofun) rfl
            hRelated
      | failure value children =>
          cases set with
          | true =>
              exact .of_only (fun _ _ => resolves_aborted_iff) (fun _ _ => onward_decided_iff nofun)
                rfl (hRelated.noting _ _)
          | false =>
              apply (hAlike _ _ (hRelated.noting .backtracked (.tree value children))).image
                (fun _ _ => resolves_retried_iff) fun _ _ => onward_joined_iff
              intro o other hSame
              simpa using Outcome.result_joinedTo hSame

section Trials

variable (hIgnores : host.IgnoresJournal)
include hIgnores

theorem choice_trials_alike (hBehaved : ∀ c ∈ a :: others, c.WellBehaved host)
    (hSame : host.SameTrace first second) :
    Alike host.SameTrace ((choice a others).program.Runs host (.pair user (.bool flag)) first)
      (Trials host (.pair user (.bool flag)) Value.leftward (a :: others) second) := by
  induction others using List.reverseRecOn generalizing user flag first second with
  | nil =>
      exact (runsLike_of_ignoresJournal hIgnores a user flag first second hSame).congr
        (fun _ _ => Iff.rfl) fun _ _ => trials_singleton_iff Outcome.grafted_leftward_nil
  | append_singleton others last ih =>
      have hEarly : ∀ c ∈ a :: others, c.WellBehaved host := fun c hWithin =>
        hBehaved c (List.mem_append_left [last] hWithin)
      have hLastBehaved : last.WellBehaved host := hBehaved last (by simp)
      obtain ⟨hABehaved, hOthersBehaved⟩ := List.forall_mem_cons.mp hEarly
      have hChain := choice_wellBehaved hABehaved hOthersBehaved
      rw [choice_concat]
      refine Alike.congr ((ih hEarly hSame).andThen ?_) (fun _ _ => altOr_runs_iff hChain hLastBehaved)
        fun _ _ => trials_leftward_iff hEarly
      intro o next other last hComes _ hAlike hRelated
      apply resolves_onward_alike hAlike _ hRelated (runsLike_of_ignoresJournal hIgnores _ user flag)
      rintro value state steps rfl
      exact hChain user flag _ _ _ _ _ hComes

theorem altOrRightAssoc_trials_alike (hBehaved : ∀ c ∈ a :: others, c.WellBehaved host)
    (hSame : host.SameTrace first second) :
    Alike host.SameTrace ((altOrRightAssoc a others).program.Runs host (.pair user (.bool flag)) first)
      (Trials host (.pair user (.bool flag)) Value.rightward (a :: others) second) := by
  induction others generalizing a first second with
  | nil =>
      exact (runsLike_of_ignoresJournal hIgnores a user flag first second hSame).congr
        (fun _ _ => Iff.rfl) fun _ _ => trials_singleton_iff Outcome.grafted_rightward_nil
  | cons b others ih =>
      obtain ⟨hABehaved, hLater⟩ := List.forall_mem_cons.mp hBehaved
      obtain ⟨hBBehaved, hOthersBehaved⟩ := List.forall_mem_cons.mp hLater
      have hChain := altOrRightAssoc_wellBehaved hBBehaved hOthersBehaved
      refine Alike.congr ((runsLike_of_ignoresJournal hIgnores a user flag first second hSame).andThen ?_)
        (fun _ _ => altOr_runs_iff hABehaved hChain) fun _ _ => trials_rightward_iff
      intro o next other last hComes _ hAlike hRelated
      apply resolves_onward_alike hAlike _ hRelated fun _ _ hSame => ih hLater hSame
      rintro value state steps rfl
      exact hABehaved user flag _ _ _ _ _ hComes

end Trials

theorem exists_decides (hBehaved : ∀ c ∈ a :: others, c.WellBehaved host)
    (hEnds : ∀ c ∈ a :: others, ∀ world, ∃ outcome final,
      c.program.Runs host (.pair user (.bool flag)) world outcome final) (world : World ω) :
    ∃ trees outcome final,
      Decides host (.pair user (.bool flag)) (a :: others) world trees outcome final := by
  induction others generalizing a world with
  | nil =>
      obtain ⟨outcome, final, hRuns⟩ := hEnds a (by simp) world
      exact ⟨[], outcome, final, .mk .nil hRuns (.inl rfl)⟩
  | cons b others ih =>
      obtain ⟨outcome, next, hRuns⟩ := hEnds a (by simp) world
      by_cases hClear : outcome.FailsClear
      · obtain ⟨failure, left, steps⟩ := hClear
        obtain ⟨hResult, _⟩ := hBehaved a (by simp) user flag _ _ _ _ _ hRuns
        cases hResult with
        | failure value children =>
            obtain ⟨trees, outcome, final, hDecides⟩ := ih
              (fun c hWithin => hBehaved c (List.mem_cons_of_mem a hWithin))
              (fun c hWithin => hEnds c (List.mem_cons_of_mem a hWithin)) next
            generalize b :: others = row at hDecides ⊢
            cases hDecides with
            | mk hFail hLast hDecisive => exact ⟨_, outcome, final, .mk (.cons hRuns hFail) hLast hDecisive⟩
      · exact ⟨[], outcome, next, .mk .nil hRuns (.inr hClear)⟩

def SameRuns (host : Host κ τ ω) (a b : Alternative κ) : Prop :=
  ∀ user flag world outcome final, a.program.Runs host (.pair user (.bool flag)) world outcome final ↔
    b.program.Runs host (.pair user (.bool flag)) world outcome final

theorem marked_sameRuns (host : Host κ τ ω) (p : Program κ) (mark : Nat) :
    SameRuns host ⟨p.marked mark⟩ ⟨p⟩ :=
  fun _ _ _ _ _ => Program.runs_marked_iff

namespace SameRuns

variable {c d : Alternative κ}

theorem refl (host : Host κ τ ω) (a : Alternative κ) : SameRuns host a a :=
  fun _ _ _ _ _ => Iff.rfl

theorem trans (hSame : SameRuns host a b) (hAgain : SameRuns host b c) : SameRuns host a c :=
  fun user flag world outcome final =>
    (hSame user flag world outcome final).trans (hAgain user flag world outcome final)

theorem wellBehaved (hSame : SameRuns host a b) (hBehaved : b.WellBehaved host) : a.WellBehaved host :=
  fun user flag world value state steps final hRuns =>
    hBehaved user flag world value state steps final ((hSame _ _ _ _ _).mp hRuns)

theorem altOr (hFirsts : SameRuns host a c) (hSeconds : SameRuns host b d) (hCBehaved : c.WellBehaved host)
    (hDBehaved : d.WellBehaved host) : SameRuns host (altOr a b) (altOr c d) := by
  intro user flag world outcome final
  rw [altOr_runs_iff (hFirsts.wellBehaved hCBehaved) (hSeconds.wellBehaved hDBehaved),
    altOr_runs_iff hCBehaved hDBehaved]
  refine exists_congr fun left => exists_congr fun next => and_congr (hFirsts _ _ _ _ _) ?_
  constructor
  · intro hResolves
    cases hResolves with
    | succeeded => exact .succeeded
    | aborted => exact .aborted
    | retried hRuns => exact .retried ((hSeconds _ _ _ _ _).mp hRuns)
    | raised => exact .raised
  · intro hResolves
    cases hResolves with
    | succeeded => exact .succeeded
    | aborted => exact .aborted
    | retried hRuns => exact .retried ((hSeconds _ _ _ _ _).mpr hRuns)
    | raised => exact .raised

theorem choice (hFirsts : SameRuns host a c) (hCBehaved : c.WellBehaved host)
    (hBehaved : ∀ d ∈ others, d.WellBehaved host) :
    SameRuns host (choice a others) (choice c others) := by
  induction others generalizing a c with
  | nil => exact hFirsts
  | cons second others ih =>
      obtain ⟨hSecondBehaved, hLater⟩ := List.forall_mem_cons.mp hBehaved
      exact ih (hFirsts.altOr (.refl host second) hCBehaved hSecondBehaved) (hCBehaved.altOr hSecondBehaved)
        hLater

theorem altOrRightAssoc (hLasts : SameRuns host b d) (hDBehaved : d.WellBehaved host)
    (hBehaved : ∀ c ∈ a :: others, c.WellBehaved host) :
    SameRuns host (altOrRightAssoc a (others ++ [b])) (altOrRightAssoc a (others ++ [d])) := by
  induction others generalizing a with
  | nil =>
      exact (SameRuns.refl host a).altOr hLasts (hBehaved a (by simp)) hDBehaved
  | cons second others ih =>
      obtain ⟨hABehaved, hLater⟩ := List.forall_mem_cons.mp hBehaved
      obtain ⟨hSecondBehaved, hOthersBehaved⟩ := List.forall_mem_cons.mp hLater
      apply (SameRuns.refl host a).altOr (ih hLater) hABehaved
      apply altOrRightAssoc_wellBehaved hSecondBehaved
      intro c hWithin
      rcases List.mem_append.mp hWithin with hEarly | hLast
      · exact hOthersBehaved c hEarly
      · rw [List.mem_singleton.mp hLast]
        exact hDBehaved

end SameRuns

theorem choice_append (a : Alternative κ) (others more : List (Alternative κ)) :
    choice (choice a others) more = choice a (others ++ more) := by
  simp only [choice, List.foldl_append]

theorem altOrRightAssoc_append (a b : Alternative κ) (others more : List (Alternative κ)) :
    altOrRightAssoc a (others ++ [altOrRightAssoc b more]) = altOrRightAssoc a (others ++ b :: more) := by
  induction others generalizing a with
  | nil => rfl
  | cons second others ih => simp only [List.cons_append, altOrRightAssoc, ih]

end Alternative

inductive Value.IsAlternative (a : Alternative κ) : Value κ → Prop where
  | mk (mark : Mark) : IsAlternative a (.alternative mark a.program)

def Value.powers : Value κ → List (Value κ) → Exec κ ω (Value κ)
  | first, [] => pure first
  | first, second :: later => do
      let right ← powers second later
      let joined ← Exec.demand (first.power right)
      Exec.giveOut joined

namespace Alternative

open Outcomes

theorem powers_sameRuns {values : List (Value κ)} (hBehaved : ∀ c ∈ a :: others, c.WellBehaved host)
    (hFirst : value.IsAlternative a)
    (hAreOthers : List.Forall₂ (fun value c => Value.IsAlternative c value) values others)
    (world : World ω) :
    ∃ mark q next, value.powers values world = .ok (.alternative mark q) next ∧
      SameRuns host ⟨q⟩ (altOrRightAssoc a others) := by
  induction hAreOthers generalizing a value with
  | nil =>
      obtain ⟨mark⟩ := hFirst
      exact ⟨mark, a.program, world, rfl, .refl host a⟩
  | @cons second b later others hSecond _ ih =>
      obtain ⟨hABehaved, hTail⟩ := List.forall_mem_cons.mp hBehaved
      obtain ⟨hBBehaved, hOthersBehaved⟩ := List.forall_mem_cons.mp hTail
      obtain ⟨_, q, next, hPowered, hSame⟩ := ih hTail hSecond
      obtain ⟨mark⟩ := hFirst
      refine ⟨some next.nextMark, (altOr a ⟨q⟩).program.marked next.nextMark, _,
        Exec.bind_of_ok hPowered, ?_⟩
      apply (marked_sameRuns host (altOr a ⟨q⟩).program next.nextMark).trans
      exact (SameRuns.refl host a).altOr hSame hABehaved
        (altOrRightAssoc_wellBehaved hBBehaved hOthersBehaved)

/-- The exact tree of a chain. Both groupings come to what the deciding operand comes to; a failure of it is
grafted below the trees of the operands before. So it does not matter whether a first part of a left chain or
a last part of a right one is a chain itself, and a chain of powers is a right one. -/
theorem chain_trees_exact (hBehaved : ∀ c ∈ a :: others, c.WellBehaved host)
    (hIgnores : host.IgnoresJournal) (user : Value κ) (flag : Bool) (world : World ω) :
    Alike host.SameTrace ((choice a others).program.Runs host (.pair user (.bool flag)) world)
      (Trials host (.pair user (.bool flag)) Value.leftward (a :: others) world) ∧
    Alike host.SameTrace ((altOrRightAssoc a others).program.Runs host (.pair user (.bool flag)) world)
      (Trials host (.pair user (.bool flag)) Value.rightward (a :: others) world) ∧
    ((∀ c ∈ a :: others, ∀ world, ∃ outcome final,
        c.program.Runs host (.pair user (.bool flag)) world outcome final) →
      ∃ trees outcome final,
        Decides host (.pair user (.bool flag)) (a :: others) world trees outcome final) ∧
    (∀ xs ys mark, others = xs ++ ys →
      SameRuns host (choice ⟨(choice a xs).program.marked mark⟩ ys) (choice a others)) ∧
    (∀ xs b ys mark, others = xs ++ b :: ys →
      SameRuns host (altOrRightAssoc a (xs ++ [⟨(altOrRightAssoc b ys).program.marked mark⟩]))
        (altOrRightAssoc a others)) ∧
    ∀ value values start, Value.IsAlternative a value →
      List.Forall₂ (fun value c => Value.IsAlternative c value) values others →
      ∃ mark q next, value.powers values start = .ok (.alternative mark q) (next : World ω) ∧
        SameRuns host ⟨q⟩ (altOrRightAssoc a others) := by
  obtain ⟨hABehaved, hOthersBehaved⟩ := List.forall_mem_cons.mp hBehaved
  refine ⟨choice_trials_alike hIgnores hBehaved (.refl host world),
    altOrRightAssoc_trials_alike hIgnores hBehaved (.refl host world),
    fun hEnds => exists_decides hBehaved hEnds world, ?_, ?_,
    fun value values start hFirst hAreOthers => powers_sameRuns hBehaved hFirst hAreOthers start⟩
  · rintro xs ys mark rfl
    obtain ⟨hEarly, hLater⟩ := List.forall_mem_append.mp hOthersBehaved
    rw [← choice_append]
    exact (marked_sameRuns host _ mark).choice (choice_wellBehaved hABehaved hEarly) hLater
  · rintro xs b ys mark rfl
    obtain ⟨hEarly, hLater⟩ := List.forall_mem_append.mp hOthersBehaved
    obtain ⟨hBBehaved, hYsBehaved⟩ := List.forall_mem_cons.mp hLater
    rw [← altOrRightAssoc_append a b xs ys]
    exact (marked_sameRuns host _ mark).altOrRightAssoc
      (altOrRightAssoc_wellBehaved hBBehaved hYsBehaved) (List.forall_mem_cons.mpr ⟨hABehaved, hEarly⟩)

/-- The second operand fails with a child of its own, and the third one aborts. -/
theorem chain_trees_exact_over_abort :
    (∃ steps final, (choice (error (.str "a"))
        [altOr (error (.str "b")) (error (.str "c")), abort (.str "d"), inject (.int 1)]).program.Runs
        Host.codeless (.pair (.int 0) (.bool false)) ⟨(), #[], 0⟩
        (.returned (.err (.tree (.str "a") [.tree (.str "b") [.tree (.str "c") []], .tree (.str "d") []]))
          (.pair (.int 0) (.bool true)) steps) final) ∧
    ∃ steps final, (altOrRightAssoc (error (.str "a"))
        [altOr (error (.str "b")) (error (.str "c")), abort (.str "d"), inject (.int 1)]).program.Runs
        Host.codeless (.pair (.int 0) (.bool false)) ⟨(), #[], 0⟩
        (.returned
          (.err (.tree (.str "a") [.tree (.str "b") [.tree (.str "c") [], .tree (.str "d") []]]))
          (.pair (.int 0) (.bool true)) steps) final := by
  let errors : Alternative Empty := altOr (error (.str "b")) (error (.str "c"))
  have hErrorsBehaved : errors.WellBehaved Host.codeless :=
    (error_wellBehaved Host.codeless _).altOr (error_wellBehaved Host.codeless _)
  have hBehaved : ∀ c ∈ error (.str "a") :: [errors, abort (.str "d"), inject (.int 1)],
      c.WellBehaved Host.codeless := by
    simp only [List.forall_mem_cons]
    exact ⟨error_wellBehaved _ _, hErrorsBehaved, (abort_givesTrees _ _).wellBehaved,
      inject_wellBehaved _ _, nofun⟩
  obtain ⟨hLeftward, hRightward, _⟩ := chain_trees_exact hBehaved nofun (.int 0) false ⟨(), #[], 0⟩
  have hFail : FailInTurn Host.codeless (.pair (.int 0) (.bool false)) [error (.str "a"), errors]
      ⟨(), #[], 0⟩ [.tree (.str "a") [], .tree (.str "b") [.tree (.str "c") []]] ⟨(), #[], 0⟩ :=
    .cons ⟨20, rfl⟩ (.cons ⟨20, rfl⟩ .nil)
  have hDecides : Decides Host.codeless (.pair (.int 0) (.bool false))
      ([error (.str "a"), errors] ++ abort (.str "d") :: [inject (.int 1)]) ⟨(), #[], 0⟩
      [.tree (.str "a") [], .tree (.str "b") [.tree (.str "c") []]]
      (.returned (.failWith (.str "d")) (.pair (.int 0) (.bool true)) 2) ⟨(), #[], 0⟩ :=
    .mk hFail ⟨20, rfl⟩ (.inr nofun)
  constructor
  · obtain ⟨other, final, hRuns, hSame, _⟩ := hLeftward.back _ _ ⟨_, _, hDecides, rfl⟩
    obtain ⟨_, rfl⟩ := Outcome.returned_of_result hSame
    exact ⟨_, final, hRuns⟩
  · obtain ⟨other, final, hRuns, hSame, _⟩ := hRightward.back _ _ ⟨_, _, hDecides, rfl⟩
    obtain ⟨_, rfl⟩ := Outcome.returned_of_result hSame
    exact ⟨_, final, hRuns⟩

end Alternative

end Backtrack
