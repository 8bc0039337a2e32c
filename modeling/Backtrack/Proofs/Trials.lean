import Backtrack.Proofs.Alternation
import Backtrack.Proofs.Correspondence
import Backtrack.Proofs.TrialOrder

/-! Trials in a row. Alternatives are tried one after the other, each from the pair in which the row
began, until one of them decides: it succeeds, fails with the abort flag set, raises an exception, or is
the last. -/

namespace Backtrack

variable {κ τ ω : Type}

/-- A success, or a failure with a tree all of whose descendants are trees. -/
inductive Value.IsTreeResult : Value κ → Prop where
  | success (value : Value κ) : IsTreeResult (.ok value)
  | failure (tree : ErrorTree (Value κ)) : IsTreeResult (.err (ofTree tree))

theorem Value.IsTreeResult.isResult {value : Value κ} (hTree : value.IsTreeResult) :
    value.IsResult := by
  cases hTree with
  | success value => exact .success value
  | failure tree =>
      obtain ⟨root, children⟩ := tree
      exact .failure root (ofTrees children)

theorem Value.IsTreeResult.exists_trees {root : Value κ} {children : List (Value κ)}
    (hTree : (Value.err (.tree root children)).IsTreeResult) :
    ∃ trees, children = ofTrees trees := by
  generalize hSame : Value.err (.tree root children) = failed at hTree
  cases hTree with
  | success value => cases hSame
  | failure tree =>
      obtain ⟨value, trees⟩ := tree
      cases hSame
      exact ⟨trees, rfl⟩

/-- Started from any state pair, the alternative returns such a result and leaves a state pair, if it
returns. -/
def Alternative.GivesTrees (host : Host κ τ ω) (a : Alternative κ) : Prop :=
  ∀ user flag world value state steps final,
    a.program.Runs host (.pair user (.bool flag)) world (.returned value state steps) final →
      value.IsTreeResult ∧ state.IsStatePair

theorem Alternative.GivesTrees.wellBehaved {host : Host κ τ ω} {a : Alternative κ}
    (hGives : a.GivesTrees host) : a.WellBehaved host := by
  intro user flag world value state steps final hRuns
  obtain ⟨hTree, hPair⟩ := hGives user flag world value state steps final hRuns
  exact ⟨hTree.isResult, hPair⟩

namespace World

def Alike (first second : World ω) : Prop :=
  first.host = second.host ∧ first.nextMark = second.nextMark

theorem alike_corresponding : Corresponding (Alike (ω := ω)) where
  noted _ _ hAlike _ := hAlike
  sameMark _ _ hAlike := hAlike.2
  gaveOut _ _ hAlike := ⟨hAlike.1, congrArg (· + 1) hAlike.2⟩

end World

namespace Host

/-- In debugging, the host's code does not read the journal. -/
def IgnoresJournal (host : Host κ τ ω) : Prop :=
  host.debug = true → host.Corresponds World.Alike host

/-- The worlds are the same but for what is noted in debugging. -/
def SameTrace (host : Host κ τ ω) (first second : World ω) : Prop :=
  first.Alike second ∧ (host.debug = false → first = second)

variable {host : Host κ τ ω} {first second third : World ω}

namespace SameTrace

@[refl] theorem refl (host : Host κ τ ω) (world : World ω) : host.SameTrace world world :=
  ⟨⟨rfl, rfl⟩, fun _ => rfl⟩

theorem symm (hSame : host.SameTrace first second) : host.SameTrace second first :=
  ⟨⟨hSame.1.1.symm, hSame.1.2.symm⟩, fun hOff => (hSame.2 hOff).symm⟩

theorem trans (hSame : host.SameTrace first second) (hOther : host.SameTrace second third) :
    host.SameTrace first third :=
  ⟨⟨hSame.1.1.trans hOther.1.1, hSame.1.2.trans hOther.1.2⟩,
    fun hOff => (hSame.2 hOff).trans (hOther.2 hOff)⟩

theorem noting (hSame : host.SameTrace first second) (entry : String → Note) (failure : Value κ) :
    host.SameTrace (host.noting entry failure first) second := by
  unfold Host.noting
  split
  · rename_i hOn
    exact ⟨hSame.1, fun hOff => absurd (hOn.symm.trans hOff) nofun⟩
  · exact hSame

end SameTrace

theorem sameTrace_corresponding (host : Host κ τ ω) : World.Corresponding host.SameTrace where
  noted _ _ hSame _ := ⟨hSame.1, fun hOff => by rw [hSame.2 hOff]⟩
  sameMark _ _ hSame := hSame.1.2
  gaveOut _ _ hSame := ⟨⟨hSame.1.1, congrArg (· + 1) hSame.1.2⟩, fun hOff => by rw [hSame.2 hOff]⟩

theorem sameTrace_of_debug (hOn : host.debug = true) (hAlike : first.Alike second) :
    host.SameTrace first second :=
  ⟨hAlike, fun hOff => absurd (hOn.symm.trans hOff) nofun⟩

theorem corresponds_sameTrace {α : Type} {x : Exec κ ω α}
    (hAlike : host.debug = true → Exec.Corresponds World.Alike x x) :
    Exec.Corresponds host.SameTrace x x := by
  intro first second hSame
  cases hMode : host.debug with
  | false =>
      obtain rfl := hSame.2 hMode
      refine (Exec.Matches.rfl (x first)).imp fun left right hSame => ?_
      subst hSame
      exact .refl host left
  | true =>
      exact (hAlike hMode first second hSame.1).imp fun left right => sameTrace_of_debug hMode

theorem IgnoresJournal.corresponds (hIgnores : host.IgnoresJournal) :
    host.Corresponds host.SameTrace host where
  debug := rfl
  call k args := corresponds_sameTrace fun hOn => (hIgnores hOn).call k args
  start k args := corresponds_sameTrace fun hOn => (hIgnores hOn).start k args
  spawn k args := corresponds_sameTrace fun hOn => (hIgnores hOn).spawn k args
  resume t sent := corresponds_sameTrace fun hOn => (hIgnores hOn).resume t sent
  close t := corresponds_sameTrace fun hOn => (hIgnores hOn).close t
  literal _ _ := rfl
  logged _ _ := rfl

theorem IgnoresJournal.runs (hIgnores : host.IgnoresJournal) {p : Program κ} {state : Value κ}
    {outcome : Outcome κ} {world other final : World ω}
    (hRuns : p.Runs host state world outcome final) (hSame : host.SameTrace world other) :
    ∃ last, p.Runs host state other outcome last ∧ host.SameTrace final last :=
  hRuns.of_corresponds (sameTrace_corresponding host) hIgnores.corresponds hSame

end Host

/-- How a row of trials ends. A failure holds the trees of all that were tried, in trial order. -/
inductive Verdict (κ : Type) where
  | succeeded (value state : Value κ)
  | failed (trees : List (ErrorTree (Value κ))) (user : Value κ) (flag : Bool)
  | raised (exception : Raised κ)

namespace Verdict

def preceded (trees : List (ErrorTree (Value κ))) : Verdict κ → Verdict κ
  | failed later user flag => failed (trees ++ later) user flag
  | other => other

/-- The outcome of a run is that of the trials: the same value, state and exception, and a tree that
records what the trees of those tried record, in trial order. -/
inductive Shows : Verdict κ → Outcome κ → Prop where
  | succeeded (value state : Value κ) (steps : Nat) :
      Shows (.succeeded value state) (.returned (.ok value) state steps)
  | failed {trees : List (ErrorTree (Value κ))} {tree : ErrorTree (Value κ)} (user : Value κ)
      (flag : Bool) (steps : Nat) :
      tree.values = trees.flatMap ErrorTree.values →
      Shows (.failed trees user flag)
        (.returned (.err (Value.ofTree tree)) (.pair user (.bool flag)) steps)
  | raised (exception : Raised κ) : Shows (.raised exception) (.raised exception)

theorem shows_ok {verdict : Verdict κ} {value state : Value κ} {steps : Nat}
    (hShows : verdict.Shows (.returned (.ok value) state steps)) :
    verdict = .succeeded value state := by
  cases hShows
  rfl

theorem shows_err {verdict : Verdict κ} {failure user : Value κ} {flag : Bool} {steps : Nat}
    (hShows : verdict.Shows (.returned (.err failure) (.pair user (.bool flag)) steps)) :
    ∃ trees root children, verdict = .failed trees user flag ∧
      failure = .tree root (Value.ofTrees children) ∧
      (ErrorTree.node root children).values = trees.flatMap ErrorTree.values := by
  cases hShows with
  | @failed trees tree _ _ _ hSame =>
      obtain ⟨root, children⟩ := tree
      exact ⟨trees, root, children, rfl, rfl, hSame⟩

theorem shows_raised {verdict : Verdict κ} {exception : Raised κ}
    (hShows : verdict.Shows (.raised exception)) : verdict = .raised exception := by
  cases hShows
  rfl

theorem Shows.after {verdict : Verdict κ} {outcome : Outcome κ} (hShows : verdict.Shows outcome)
    (spent : Nat) : verdict.Shows (outcome.after spent) := by
  cases hShows with
  | succeeded value state steps => exact .succeeded value state _
  | failed user flag steps hSame => exact .failed user flag _ hSame
  | raised exception => exact .raised exception

theorem Shows.joinedTo {verdict : Verdict κ} {outcome : Outcome κ}
    {trees : List (ErrorTree (Value κ))} {value : Value κ} {children : List (ErrorTree (Value κ))}
    (hShows : verdict.Shows outcome)
    (hKept : (ErrorTree.node value children).values = trees.flatMap ErrorTree.values) :
    (verdict.preceded trees).Shows (outcome.joinedTo value (Value.ofTrees children)) := by
  cases hShows with
  | succeeded value state steps => exact .succeeded value state steps
  | @failed later tree user flag steps hSame =>
      have hJoined : ((ErrorTree.node value children).withChild tree).values =
          (trees ++ later).flatMap ErrorTree.values := by
        rw [ErrorTree.values_withChild, hKept, hSame, List.flatMap_append]
      have hShown := Shows.failed user flag steps hJoined
      rw [Value.ofTree_withChild] at hShown
      exact hShown
  | raised exception => exact .raised exception

end Verdict

namespace Alternative

/-- All of the alternatives, tried in a row from the pair, fail with the abort flag clear. -/
inductive Exhausts (host : Host κ τ ω) (pair : Value κ) :
    List (Alternative κ) → World ω → List (ErrorTree (Value κ)) → World ω → Prop where
  | nil {world} : Exhausts host pair [] world [] world
  | cons {a rest tree user steps world next trees final} :
      a.program.Runs host pair world
        (.returned (.err (.ofTree tree)) (.pair user (.bool false)) steps) next →
      Exhausts host pair rest next trees final →
      Exhausts host pair (a :: rest) world (tree :: trees) final

/-- The alternatives `before` fail with the flag clear, and `a` decides: `after` are not tried. -/
inductive Tries (host : Host κ τ ω) (pair : Value κ) (before : List (Alternative κ))
    (a : Alternative κ) : List (Alternative κ) → World ω → Verdict κ → World ω → Prop where
  | succeeded {after trees value state steps world next final} :
      Exhausts host pair before world trees next →
      a.program.Runs host pair next (.returned (.ok value) state steps) final →
      Tries host pair before a after world (.succeeded value state) final
  | aborted {after trees tree user steps world next final} :
      Exhausts host pair before world trees next →
      a.program.Runs host pair next
        (.returned (.err (.ofTree tree)) (.pair user (.bool true)) steps) final →
      Tries host pair before a after world (.failed (trees ++ [tree]) user true) final
  | raised {after trees exception world next final} :
      Exhausts host pair before world trees next →
      a.program.Runs host pair next (.raised exception) final →
      Tries host pair before a after world (.raised exception) final
  | exhausted {trees tree user steps world next final} :
      Exhausts host pair before world trees next →
      a.program.Runs host pair next
        (.returned (.err (.ofTree tree)) (.pair user (.bool false)) steps) final →
      Tries host pair before a [] world (.failed (trees ++ [tree]) user false) final

variable {host : Host κ τ ω} {pair user : Value κ} {before later after : List (Alternative κ)}
  {a : Alternative κ} {trees : List (ErrorTree (Value κ))} {verdict : Verdict κ}
  {world final : World ω}

theorem exhausts_append_iff :
    Exhausts host pair (before ++ later) world trees final ↔
      ∃ first second next, trees = first ++ second ∧ Exhausts host pair before world first next ∧
        Exhausts host pair later next second final := by
  induction before generalizing world trees with
  | nil =>
      constructor
      · exact fun hExhausts => ⟨[], trees, world, rfl, .nil, hExhausts⟩
      · rintro ⟨first, second, next, rfl, ⟨⟩, hExhausts⟩
        exact hExhausts
  | cons head rest ih =>
      constructor
      · intro hExhausts
        cases hExhausts with
        | @cons _ _ tree _ _ _ _ _ _ hRuns hExhausts =>
            obtain ⟨first, second, next, rfl, hEarlier, hOthers⟩ := ih.mp hExhausts
            exact ⟨tree :: first, second, next, rfl, .cons hRuns hEarlier, hOthers⟩
      · rintro ⟨first, second, next, rfl, hEarlier, hOthers⟩
        cases hEarlier with
        | cons hRuns hExhausts => exact .cons hRuns (ih.mpr ⟨_, second, next, rfl, hExhausts, hOthers⟩)

theorem exhausts_concat_iff :
    Exhausts host pair (before ++ [a]) world trees final ↔
      ∃ user, Tries host pair before a [] world (.failed trees user false) final := by
  rw [exhausts_append_iff]
  constructor
  · rintro ⟨first, second, next, rfl, hEarlier, hOthers⟩
    cases hOthers with
    | cons hRuns hNone =>
        cases hNone
        exact ⟨_, .exhausted hEarlier hRuns⟩
  · rintro ⟨user, hTries⟩
    cases hTries with
    | exhausted hEarlier hRuns => exact ⟨_, _, _, rfl, hEarlier, .cons hRuns .nil⟩

theorem tries_append_iff :
    Tries host pair (before ++ later) a after world verdict final ↔
      ∃ trees next rest, Exhausts host pair before world trees next ∧
        Tries host pair later a after next rest final ∧ verdict = rest.preceded trees := by
  constructor
  · intro hTries
    cases hTries with
    | succeeded hExhausts hRuns =>
        obtain ⟨first, second, next, rfl, hEarlier, hOthers⟩ := exhausts_append_iff.mp hExhausts
        exact ⟨first, next, _, hEarlier, .succeeded hOthers hRuns, rfl⟩
    | aborted hExhausts hRuns =>
        obtain ⟨first, second, next, rfl, hEarlier, hOthers⟩ := exhausts_append_iff.mp hExhausts
        exact ⟨first, next, _, hEarlier, .aborted hOthers hRuns, by simp [Verdict.preceded]⟩
    | raised hExhausts hRuns =>
        obtain ⟨first, second, next, rfl, hEarlier, hOthers⟩ := exhausts_append_iff.mp hExhausts
        exact ⟨first, next, _, hEarlier, .raised hOthers hRuns, rfl⟩
    | exhausted hExhausts hRuns =>
        obtain ⟨first, second, next, rfl, hEarlier, hOthers⟩ := exhausts_append_iff.mp hExhausts
        exact ⟨first, next, _, hEarlier, .exhausted hOthers hRuns, by simp [Verdict.preceded]⟩
  · rintro ⟨trees, next, rest, hEarlier, hTries, rfl⟩
    cases hTries with
    | succeeded hOthers hRuns =>
        exact .succeeded (exhausts_append_iff.mpr ⟨_, _, _, rfl, hEarlier, hOthers⟩) hRuns
    | aborted hOthers hRuns =>
        have hExhausts := exhausts_append_iff.mpr ⟨_, _, _, rfl, hEarlier, hOthers⟩
        simpa [Verdict.preceded] using Tries.aborted hExhausts hRuns
    | raised hOthers hRuns =>
        exact .raised (exhausts_append_iff.mpr ⟨_, _, _, rfl, hEarlier, hOthers⟩) hRuns
    | exhausted hOthers hRuns =>
        have hExhausts := exhausts_append_iff.mpr ⟨_, _, _, rfl, hEarlier, hOthers⟩
        simpa [Verdict.preceded] using Tries.exhausted hExhausts hRuns

theorem Tries.decides (hTries : Tries host pair before a after world verdict final)
    (hDecisive : ∀ trees user, verdict ≠ .failed trees user false)
    (more : List (Alternative κ)) : Tries host pair before a more world verdict final := by
  cases hTries with
  | succeeded hExhausts hRuns => exact .succeeded hExhausts hRuns
  | aborted hExhausts hRuns => exact .aborted hExhausts hRuns
  | raised hExhausts hRuns => exact .raised hExhausts hRuns
  | exhausted hExhausts hRuns => exact absurd rfl (hDecisive _ _)

theorem Tries.exhausts (hTries : Tries host pair before a after world (.failed trees user false) final) :
    after = [] ∧ Exhausts host pair (before ++ [a]) world trees final := by
  cases hTries with
  | exhausted hExhausts hRuns =>
      exact ⟨rfl, exhausts_concat_iff.mpr ⟨_, .exhausted hExhausts hRuns⟩⟩

theorem error_givesTrees (host : Host κ τ ω) (reason : Value κ) : (error reason).GivesTrees host := by
  intro user flag world result state steps final hRuns
  obtain ⟨⟨⟩, rfl⟩ := error_runs_iff.mp hRuns
  exact ⟨.failure (.leaf reason), .mk user flag⟩

theorem abort_givesTrees (host : Host κ τ ω) (reason : Value κ) : (abort reason).GivesTrees host := by
  intro user flag world result state steps final hRuns
  obtain ⟨_, hEvaluates, hEnded⟩ := Program.runs_iff_exists_evaluates.mp hRuns
  obtain ⟨_, hBegun, rfl⟩ := Evaluates.generator_iff.mp hEvaluates
  obtain ⟨_, _, hTaken, hFollows⟩ := (Evaluates.yielded_iff rfl).mp hBegun
  cases hTaken with
  | modifyRaised hFailed => cases hFailed
  | modify hApplied =>
      cases hApplied
      obtain ⟨_, hFailed, rfl⟩ := Follows.returned_iff.mp hFollows
      obtain ⟨rfl, rfl⟩ := (Evaluates.returned_iff rfl).mp hFailed
      cases hEnded
      exact ⟨.failure (.leaf reason), .mk user true⟩

theorem GivesTrees.decides_or_fails {flag : Bool} {outcome : Outcome κ} (hGives : a.GivesTrees host)
    (hRuns : a.program.Runs host (.pair user (.bool flag)) world outcome final) :
    (∃ verdict, verdict.Shows outcome ∧
      ∀ after, Tries host (.pair user (.bool flag)) [] a after world verdict final) ∨
    ∃ tree left steps,
      outcome = .returned (.err (.ofTree tree)) (.pair left (.bool false)) steps := by
  cases outcome with
  | raised exception => exact .inl ⟨_, .raised exception, fun _ => .raised .nil hRuns⟩
  | returned value state steps =>
      obtain ⟨hTree, hPair⟩ := hGives _ _ _ _ _ _ _ hRuns
      cases hTree with
      | success value => exact .inl ⟨_, .succeeded value state steps, fun _ => .succeeded .nil hRuns⟩
      | failure tree =>
          obtain ⟨left, set⟩ := hPair
          cases set with
          | true =>
              exact .inl ⟨_, .failed left true steps (by simp), fun _ => .aborted .nil hRuns⟩
          | false => exact .inr ⟨tree, left, steps, rfl⟩

theorem exists_tries {flag : Bool} (hGive : ∀ b ∈ a :: later, b.GivesTrees host)
    (hEnds : ∀ b ∈ a :: later, ∀ world, ∃ outcome final,
      b.program.Runs host (.pair user (.bool flag)) world outcome final) (world : World ω) :
    ∃ before b after verdict final, a :: later = before ++ b :: after ∧
      Tries host (.pair user (.bool flag)) before b after world verdict final := by
  induction later generalizing a world with
  | nil =>
      obtain ⟨outcome, final, hRuns⟩ := hEnds a (by simp) world
      rcases (hGive a (by simp)).decides_or_fails hRuns with
        ⟨verdict, _, hDecides⟩ | ⟨tree, left, steps, rfl⟩
      · exact ⟨[], a, [], verdict, final, rfl, hDecides []⟩
      · exact ⟨[], a, [], _, final, rfl, .exhausted .nil hRuns⟩
  | cons second rest ih =>
      obtain ⟨outcome, next, hRuns⟩ := hEnds a (by simp) world
      rcases (hGive a (by simp)).decides_or_fails hRuns with
        ⟨verdict, _, hDecides⟩ | ⟨tree, left, steps, rfl⟩
      · exact ⟨[], a, _, verdict, next, rfl, hDecides _⟩
      · obtain ⟨before, b, after, verdict, final, hRow, hTries⟩ :=
          ih (fun b hListed => hGive b (List.mem_cons_of_mem a hListed))
            (fun b hListed => hEnds b (List.mem_cons_of_mem a hListed)) next
        have hExhausts : Exhausts host (.pair user (.bool flag)) [a] world [tree] next :=
          .cons hRuns .nil
        have hWhole := tries_append_iff.mpr ⟨_, next, verdict, hExhausts, hTries, rfl⟩
        exact ⟨a :: before, b, after, _, final, by simp [hRow], hWhole⟩

end Alternative

end Backtrack
