import Backtrack.Proofs.ScriptCorrespondence
import Backtrack.Proofs.Visits
import Backtrack.Value.Operators

/-! Bracketings of alternatives by alternation. All bracketings of a row try the same alternatives in the
same order, each from the pair in which the whole began, and come to the same end; only the shape of the
tree that records the failures depends on the grouping. -/

namespace Backtrack

variable {κ τ ω : Type}

/-- A row of alternatives that is grouped by alternation. Each alternation may have been given out. -/
inductive Bracketing (κ : Type) where
  | operand (a : Alternative κ)
  | either (mark : Mark) (first second : Bracketing κ)

namespace Bracketing

def program : Bracketing κ → Program κ
  | operand a => a.program
  | either mark first second => .generator mark (.altOr first.program second.program)

def operands : Bracketing κ → List (Alternative κ)
  | operand a => [a]
  | either _ first second => first.operands ++ second.operands

theorem operands_ne_nil (b : Bracketing κ) : b.operands ≠ [] := by
  induction b with
  | operand a => simp [operands]
  | either mark first second ih _ => simp [operands, ih]

theorem exists_choice (first : Alternative κ) (others : List (Alternative κ)) :
    ∃ b : Bracketing κ, b.operands = first :: others ∧
      b.program = (Alternative.choice first others).program := by
  -- The bracketing so far stands for the first alternative of the fold.
  suffices hChained : ∀ (b : Bracketing κ) (others : List (Alternative κ)),
      ∃ whole : Bracketing κ, whole.operands = b.operands ++ others ∧
        whole.program = (Alternative.choice ⟨b.program⟩ others).program from
    hChained (.operand first) others
  intro b others
  induction others generalizing b with
  | nil => exact ⟨b, by simp, rfl⟩
  | cons second others ih =>
      obtain ⟨whole, hRow, hSame⟩ := ih (.either none b (.operand second))
      exact ⟨whole, by simpa [operands] using hRow, hSame⟩

theorem exists_altOrRightAssoc (first : Alternative κ) (others : List (Alternative κ)) :
    ∃ b : Bracketing κ, b.operands = first :: others ∧
      b.program = (Alternative.altOrRightAssoc first others).program := by
  induction others generalizing first with
  | nil => exact ⟨.operand first, rfl, rfl⟩
  | cons second others ih =>
      obtain ⟨rest, hRow, hSame⟩ := ih second
      refine ⟨.either none (.operand first) rest, by simp [operands, hRow], ?_⟩
      simp [program, Alternative.altOrRightAssoc, Alternative.altOr, hSame]

/-- The alternations that wait while the alternative, which comes after the ones `before`, is tried: of
those whose left operand it is in, the right operand and the pair are kept, of the others a failure. -/
inductive Awaits (pair : Value κ) :
    Bracketing κ → List (Alternative κ) → Alternative κ → List (Frame κ τ) → Prop where
  | operand {a} : Awaits pair (.operand a) [] a []
  | first {mark first second before a waiting} :
      Awaits pair first before a waiting →
      Awaits pair (.either mark first second) before a
        (waiting ++ [.altLeft second.program pair])
  | second {mark first second before a waiting} (failure : Value κ) :
      Awaits pair second before a waiting →
      Awaits pair (.either mark first second) (first.operands ++ before) a
        (waiting ++ [.altRight failure])

def Starts (host : Host κ τ ω) (pair : Value κ) (b : Bracketing κ) (world : World ω)
    (before : List (Alternative κ)) (a : Alternative κ) (now : World ω) : Prop :=
  ∃ waiting count steps, Awaits pair b before a waiting ∧
    Machine.Reaches host count (Machine.start b.program pair) world
      ⟨.take a.program, pair, waiting, steps⟩ now

end Bracketing

theorem Program.runs_mark_iff {host : Host κ τ ω} {mark other : Mark} {r : Recipe κ} {state : Value κ}
    {world final : World ω} {outcome : Outcome κ} :
    (Program.generator mark r).Runs host state world outcome final ↔
      (Program.generator other r).Runs host state world outcome final := by
  simp only [Program.runs_iff_exists_evaluates, Evaluates.generator_iff]

theorem Program.runs_marked_iff {host : Host κ τ ω} {p : Program κ} {mark : Nat} {state : Value κ}
    {world final : World ω} {outcome : Outcome κ} :
    (p.marked mark).Runs host state world outcome final ↔ p.Runs host state world outcome final := by
  cases p with
  | generator given r =>
      cases given with
      | none => exact Program.runs_mark_iff
      | some => exact Iff.rfl
  | foreign given | foreignEffect given =>
      cases given with
      | some => exact Iff.rfl
      | none =>
          simp only [Program.marked, Program.runs_iff_exists_evaluates]
          constructor
          · rintro ⟨_, hEvaluates, rfl⟩
            cases hEvaluates
            exact ⟨_, by constructor, rfl⟩
          · rintro ⟨_, hEvaluates, rfl⟩
            cases hEvaluates
            exact ⟨_, by constructor, rfl⟩
  | _ => exact Iff.rfl

namespace Alternative

variable {host : Host κ τ ω} {first second : Alternative κ}

theorem GivesTrees.altOr (hFirstGives : first.GivesTrees host) (hSecondGives : second.GivesTrees host) :
    (altOr first second).GivesTrees host := by
  intro user flag world value state steps final hRuns
  obtain ⟨left, next, hLeftRuns, hResolves⟩ :=
    (altOr_runs_iff hFirstGives.wellBehaved hSecondGives.wellBehaved).mp hRuns
  generalize hEnded : Outcome.returned value state steps = outcome at hResolves
  cases hResolves with
  | succeeded =>
      cases hEnded
      exact hFirstGives _ _ _ _ _ _ _ hLeftRuns
  | aborted =>
      cases hEnded
      exact hFirstGives _ _ _ _ _ _ _ hLeftRuns
  | @retried root user children _ _ _ right hRightRuns =>
      obtain ⟨hTree, _⟩ := hFirstGives _ _ _ _ _ _ _ hLeftRuns
      cases right with
      | raised exception => cases hEnded
      | returned result last spent =>
          obtain ⟨hRight, hPair⟩ := hSecondGives _ _ _ _ _ _ _ hRightRuns
          cases hRight with
          | success result =>
              cases hEnded
              exact ⟨.success result, hPair⟩
          | failure child =>
              obtain ⟨trees, rfl⟩ := hTree.exists_trees
              cases hEnded
              have hJoined :=
                Value.IsTreeResult.failure ((ErrorTree.node root trees).withChild child)
              rw [Value.ofTree_withChild] at hJoined
              exact ⟨hJoined, hPair⟩
  | raised => cases hEnded

end Alternative

namespace Visits

variable {host : Host κ τ ω} {first second q : Program κ} {mark : Mark} {seen user : Value κ}
  {flag : Bool} {now world : World ω} {above : List (Frame κ τ)} {bottom : Frame κ τ}

theorem not_altRight {left result state : Value κ} {waiting : List (Frame κ τ)} :
    ¬ Visits host q seen now (.generator (.altRight left) result) state world waiting := by
  have hReturns : ∀ step next, (Frame.altRight left : Frame κ τ).resume host result world =
      .ok step next → ∃ value, step = .returned value := by
    intro step next hResumed
    cases result with
    | ok value =>
        cases hResumed
        exact ⟨_, rfl⟩
    | _ =>
        obtain ⟨joined, _, _, hFinished⟩ := Exec.bind_eq_ok.mp hResumed
        cases hFinished
        exact ⟨joined, rfl⟩
  intro hVisits
  cases hVisits with
  | inside hResumed | later hResumed =>
      obtain ⟨value, ⟨⟩⟩ := hReturns _ _ hResumed

/-- What an alternation visits: its own effects, what its left operand visits, and what the right one
does once the left one has failed with the flag clear. -/
theorem altOr_cases (hBehaved : (Alternative.mk first).WellBehaved host)
    (hVisits : Visits host q seen now (.program (.generator mark (.altOr first second)))
      (.pair user (.bool flag)) world (above ++ [bottom])) :
    bottom = .altSnapshot first second ∨
    (bottom = .altLeft second (.pair user (.bool flag)) ∧
      Visits host q seen now (.program first) (.pair user (.bool flag)) world above) ∨
    (∃ left, bottom = .altFlag second (.pair user (.bool flag)) left) ∨
    (∃ left, bottom = .altRestored second left) ∨
    ∃ value children left cost next, bottom = .altRight (.err (.tree value children)) ∧
      Evaluates host (.program first) (.pair user (.bool flag)) world
        (.returned (.err (.tree value children)) (.pair left (.bool false)) cost) next ∧
      Visits host q seen now (.program second) (.pair user (.bool flag))
        (host.noting .backtracked (.tree value children) next) above := by
  generalize hWhole : above ++ [bottom] = waiting at hVisits
  cases hVisits with
  | here => simp at hWhole
  | generator hBegun =>
  subst hWhole
  rcases hBegun.yielded_cases rfl with ⟨rfl, _⟩ | ⟨_, _, _, _, hSnapshot, hKept⟩
  · exact .inl rfl
  obtain ⟨⟨⟩, rfl⟩ := Evaluates.get_iff.mp hSnapshot
  rcases hKept.yielded_cases rfl with ⟨rfl, hInside⟩ | ⟨result, left, cost, next, hEvaluates, hAfter⟩
  · exact .inr (.inl ⟨rfl, hInside⟩)
  obtain ⟨hResult, hPair⟩ := hBehaved.settled hEvaluates
  cases hResult with
  | success value => exact absurd hAfter (Visits.of_returned rfl)
  | failure value children =>
      rcases hAfter.yielded_cases rfl with ⟨rfl, _⟩ | ⟨_, _, _, failed, hAsked, hTold⟩
      · exact .inr (.inr (.inl ⟨_, rfl⟩))
      obtain ⟨⟨⟩, rfl⟩ := Evaluates.get_iff.mp hAsked
      obtain ⟨left, set⟩ := hPair
      cases set with
      | true => exact absurd hTold (Visits.of_returned (Frame.resume_altFlag_set ..))
      | false =>
          rcases hTold.yielded_cases (Frame.resume_altFlag_clear ..) with
            ⟨rfl, _⟩ | ⟨_, _, _, _, hRestored, hReady⟩
          · exact .inr (.inr (.inr (.inl ⟨_, rfl⟩)))
          obtain ⟨⟨⟩, rfl⟩ := Evaluates.put_iff.mp hRestored
          rcases hReady.yielded_cases rfl with ⟨rfl, hInside⟩ | ⟨result, _, _, final, _, hEnded⟩
          · exact .inr (.inr (.inr (.inr ⟨value, children, left, cost, failed, rfl, hEvaluates,
              hInside⟩)))
          · exact absurd hEnded not_altRight

theorem altOr_first
    (hVisits : Visits host q seen now (.program first) (.pair user (.bool flag)) world above) :
    Visits host q seen now (.program (.generator mark (.altOr first second)))
      (.pair user (.bool flag)) world (above ++ [.altLeft second (.pair user (.bool flag))]) :=
  .generator (.later rfl .get (.inside rfl hVisits))

theorem altOr_second {value left : Value κ} {children : List (Value κ)} {cost : Nat}
    {next : World ω}
    (hEvaluates : Evaluates host (.program first) (.pair user (.bool flag)) world
      (.returned (.err (.tree value children)) (.pair left (.bool false)) cost) next)
    (hVisits : Visits host q seen now (.program second) (.pair user (.bool flag))
      (host.noting .backtracked (.tree value children) next) above) :
    Visits host q seen now (.program (.generator mark (.altOr first second)))
      (.pair user (.bool flag)) world (above ++ [.altRight (.err (.tree value children))]) :=
  .generator (.later rfl .get (.later rfl hEvaluates (.later rfl .get
    (.later (Frame.resume_altFlag_clear ..) .put (.inside rfl hVisits)))))

end Visits

namespace Bracketing

variable {host : Host κ τ ω} {b : Bracketing κ} {user : Value κ} {flag : Bool}
  {world other final : World ω} {outcome : Outcome κ}

theorem program_runs_iff {mark : Mark} {first second : Bracketing κ} {state : Value κ} :
    (Bracketing.either mark first second).program.Runs host state world outcome final ↔
      (Alternative.altOr ⟨first.program⟩ ⟨second.program⟩).program.Runs host state world outcome
        final :=
  Program.runs_mark_iff

theorem givesTrees (hGive : ∀ a ∈ b.operands, a.GivesTrees host) :
    (Alternative.mk b.program).GivesTrees host := by
  induction b with
  | operand a => exact hGive a (by simp [operands])
  | either mark first second hFirstIh hSecondIh =>
      obtain ⟨hFirstGive, hSecondGive⟩ := List.forall_mem_append.mp hGive
      have hJoined := (hFirstIh hFirstGive).altOr (hSecondIh hSecondGive)
      intro user flag world value state steps final hRuns
      exact hJoined user flag world value state steps final (program_runs_iff.mp hRuns)

theorem either_runs_iff {mark : Mark} {first second : Bracketing κ}
    (hGive : ∀ a ∈ (Bracketing.either mark first second).operands, a.GivesTrees host) :
    (Bracketing.either mark first second).program.Runs host (.pair user (.bool flag)) world outcome
        final ↔
      ∃ left next, first.program.Runs host (.pair user (.bool flag)) world left next ∧
        Alternative.Resolves host ⟨second.program⟩ (.pair user (.bool flag)) left next outcome
          final := by
  obtain ⟨hFirstGive, hSecondGive⟩ := List.forall_mem_append.mp hGive
  rw [program_runs_iff]
  exact Alternative.altOr_runs_iff (givesTrees hFirstGive).wellBehaved
    (givesTrees hSecondGive).wellBehaved

theorem append_eq_split {α : Type} {first second before after : List α} {a : α}
    (hRow : first ++ second = before ++ a :: after) :
    (∃ rest, first = before ++ a :: rest ∧ after = rest ++ second) ∨
      ∃ later, before = first ++ later ∧ second = later ++ a :: after := by
  rcases List.append_eq_append_iff.mp hRow with ⟨later, rfl, hSplit⟩ | ⟨rest, rfl, hSplit⟩
  · exact .inr ⟨later, rfl, hSplit⟩
  · cases rest with
    | nil => exact .inr ⟨[], by simp, by simpa using hSplit.symm⟩
    | cons head rest =>
        obtain ⟨rfl, rfl⟩ := List.cons_eq_cons.mp hSplit
        exact .inl ⟨rest, rfl, rfl⟩

section Row

variable {before after : List (Alternative κ)} {a : Alternative κ} {verdict : Verdict κ}
  {last : World ω}

theorem tries_of_runs (hIgnores : host.IgnoresJournal) (hGive : ∀ a ∈ b.operands, a.GivesTrees host)
    (hRuns : b.program.Runs host (.pair user (.bool flag)) world outcome final)
    (hSame : host.SameTrace world other) :
    ∃ before a after verdict last, b.operands = before ++ a :: after ∧
      Alternative.Tries host (.pair user (.bool flag)) before a after other verdict last ∧
      verdict.Shows outcome ∧ host.SameTrace final last := by
  induction b generalizing world other outcome final with
  | operand a =>
      obtain ⟨last, hRan, hEnded⟩ := hIgnores.runs hRuns hSame
      rcases (hGive a (by simp [operands])).decides_or_fails hRan with
        ⟨verdict, hShown, hDecides⟩ | ⟨tree, left, steps, rfl⟩
      · exact ⟨[], a, [], verdict, last, rfl, hDecides [], hShown, hEnded⟩
      · exact ⟨[], a, [], _, last, rfl, .exhausted .nil hRan, .failed left false steps (by simp), hEnded⟩
  | either mark first second hFirstIh hSecondIh =>
      obtain ⟨hFirstGive, hSecondGive⟩ := List.forall_mem_append.mp hGive
      obtain ⟨left, next, hLeftRuns, hResolves⟩ := (either_runs_iff hGive).mp hRuns
      obtain ⟨before, a, after, verdict, last, hRow, hTries, hShown, hEnded⟩ :=
        hFirstIh hFirstGive hLeftRuns hSame
      have hWhole : (either mark first second).operands =
          before ++ a :: (after ++ second.operands) := by
        simp [operands, hRow]
      cases hResolves with
      | succeeded =>
          obtain rfl := Verdict.shows_ok hShown
          exact ⟨before, a, _, _, last, hWhole, hTries.decides nofun _, .succeeded _ _ _, hEnded⟩
      | aborted =>
          obtain ⟨trees, root, children, rfl, rfl, hRecorded⟩ := Verdict.shows_err hShown
          exact ⟨before, a, _, _, last, hWhole, hTries.decides nofun _,
            .failed _ _ _ hRecorded, hEnded.noting _ _⟩
      | raised =>
          obtain rfl := Verdict.shows_raised hShown
          exact ⟨before, a, _, _, last, hWhole, hTries.decides nofun _, .raised _, hEnded⟩
      | retried hRightRuns =>
          obtain ⟨trees, root, children, rfl, ⟨⟩, hRecorded⟩ := Verdict.shows_err hShown
          obtain ⟨rfl, hExhausts⟩ := hTries.exhausts
          rw [← hRow] at hExhausts
          obtain ⟨later, b, rest, final, finish, hRow, hTries, hShown, hEnded⟩ :=
            hSecondIh hSecondGive hRightRuns (hEnded.noting _ _)
          refine ⟨first.operands ++ later, b, rest, final.preceded trees, finish, ?_, ?_, ?_, hEnded⟩
          · simp [operands, hRow]
          · exact Alternative.tries_append_iff.mpr ⟨trees, _, final, hExhausts, hTries, rfl⟩
          · exact (hShown.joinedTo hRecorded).after _

theorem operands_eq_split {b : Alternative κ}
    (hRow : (operand b).operands = before ++ a :: after) : before = [] ∧ b = a ∧ after = [] := by
  cases before with
  | nil => simpa [operands, eq_comm] using hRow
  | cons head rest => simp [operands] at hRow

theorem runs_of_tries (hIgnores : host.IgnoresJournal) (hGive : ∀ a ∈ b.operands, a.GivesTrees host)
    (hRow : b.operands = before ++ a :: after)
    (hTries : Alternative.Tries host (.pair user (.bool flag)) before a after world verdict last)
    (hSame : host.SameTrace world other) :
    ∃ outcome final, b.program.Runs host (.pair user (.bool flag)) other outcome final ∧
      verdict.Shows outcome ∧ host.SameTrace last final := by
  induction b generalizing before a after world verdict last other with
  | operand b =>
      obtain ⟨rfl, rfl, rfl⟩ := operands_eq_split hRow
      cases hTries with
      | succeeded hNone hRuns =>
          cases hNone
          obtain ⟨final, hRan, hEnded⟩ := hIgnores.runs hRuns hSame
          exact ⟨_, final, hRan, .succeeded _ _ _, hEnded⟩
      | aborted hNone hRuns =>
          cases hNone
          obtain ⟨final, hRan, hEnded⟩ := hIgnores.runs hRuns hSame
          exact ⟨_, final, hRan, .failed _ _ _ (by simp), hEnded⟩
      | raised hNone hRuns =>
          cases hNone
          obtain ⟨final, hRan, hEnded⟩ := hIgnores.runs hRuns hSame
          exact ⟨_, final, hRan, .raised _, hEnded⟩
      | exhausted hNone hRuns =>
          cases hNone
          obtain ⟨final, hRan, hEnded⟩ := hIgnores.runs hRuns hSame
          exact ⟨_, final, hRan, .failed _ _ _ (by simp), hEnded⟩
  | either mark first second hFirstIh hSecondIh =>
      obtain ⟨hFirstGive, hSecondGive⟩ := List.forall_mem_append.mp hGive
      rcases append_eq_split hRow with ⟨rest, hFirstRow, rfl⟩ | ⟨later, rfl, hSecondRow⟩
      · have hDecisive : ∀ trees user, verdict ≠ .failed trees user false := by
          rintro trees user rfl
          exact second.operands_ne_nil (List.append_eq_nil_iff.mp hTries.exhausts.1).2
        obtain ⟨left, next, hLeftRuns, hShown, hEnded⟩ :=
          hFirstIh hFirstGive hFirstRow (hTries.decides hDecisive rest) hSame
        cases hShown with
        | succeeded value state steps =>
            exact ⟨_, next, (either_runs_iff hGive).mpr ⟨_, next, hLeftRuns, .succeeded⟩,
              .succeeded _ _ _, hEnded⟩
        | raised exception =>
            exact ⟨_, next, (either_runs_iff hGive).mpr ⟨_, next, hLeftRuns, .raised⟩,
              .raised _, hEnded⟩
        | @failed trees tree user set steps hRecorded =>
            cases set with
            | false => exact absurd rfl (hDecisive trees user)
            | true =>
                exact ⟨_, _, (either_runs_iff hGive).mpr ⟨_, next, hLeftRuns, .aborted⟩,
                  .failed _ _ _ hRecorded, (hEnded.symm.noting _ _).symm⟩
      · obtain ⟨trees, middle, rest, hExhausts, hLaterTries, rfl⟩ :=
          Alternative.tries_append_iff.mp hTries
        have hFirstRow := (List.dropLast_concat_getLast first.operands_ne_nil).symm
        rw [hFirstRow, Alternative.exhausts_concat_iff] at hExhausts
        obtain ⟨user, hFirstTries⟩ := hExhausts
        obtain ⟨left, next, hLeftRuns, hShown, hEnded⟩ := hFirstIh hFirstGive hFirstRow hFirstTries hSame
        cases hShown with
        | @failed trees tree user set steps hRecorded =>
            obtain ⟨root, children⟩ := tree
            obtain ⟨right, finish, hRightRuns, hShown, hEnded⟩ :=
              hSecondIh hSecondGive hSecondRow hLaterTries (hEnded.symm.noting .backtracked
                (.tree root (Value.ofTrees children))).symm
            exact ⟨_, finish, (either_runs_iff hGive).mpr ⟨_, next, hLeftRuns, .retried hRightRuns⟩,
              (hShown.joinedTo hRecorded).after _, hEnded⟩

theorem exhausts_of_visits {q : Program κ} {seen : Value κ} {now : World ω}
    {waiting : List (Frame κ τ)} (hIgnores : host.IgnoresJournal)
    (hGive : ∀ a ∈ b.operands, a.GivesTrees host)
    (hAwaits : Awaits (.pair user (.bool flag)) b before a waiting)
    (hVisits : Visits host q seen now (.program b.program) (.pair user (.bool flag)) world waiting)
    (hSame : host.SameTrace world other) :
    q = a.program ∧ seen = .pair user (.bool flag) ∧ (∃ after, b.operands = before ++ a :: after) ∧
      ∃ trees last, Alternative.Exhausts host (.pair user (.bool flag)) before other trees last ∧
        host.SameTrace now last := by
  induction hAwaits generalizing world other with
  | @operand a =>
      simp only [program] at hVisits
      generalize a.program = p at hVisits ⊢
      cases hVisits with
      | here => exact ⟨rfl, rfl, ⟨[], rfl⟩, [], other, .nil, hSame⟩
      | generator hBegun => exact absurd rfl hBegun.waiting_ne_nil
  | @first mark first second before a waiting _ ih =>
      obtain ⟨hFirstGive, hSecondGive⟩ := List.forall_mem_append.mp hGive
      obtain ⟨⟨⟩⟩ | ⟨_, hInside⟩ | ⟨_, ⟨⟩⟩ | ⟨_, ⟨⟩⟩ | ⟨_, _, _, _, _, ⟨⟩, _⟩ :=
        hVisits.altOr_cases (givesTrees hFirstGive).wellBehaved
      obtain ⟨hTaken, hFromPair, ⟨after, hRow⟩, hTried⟩ := ih hFirstGive hInside hSame
      exact ⟨hTaken, hFromPair, ⟨after ++ second.operands, by simp [operands, hRow]⟩, hTried⟩
  | @second mark first second before a waiting failure _ ih =>
      obtain ⟨hFirstGive, hSecondGive⟩ := List.forall_mem_append.mp hGive
      obtain ⟨⟨⟩⟩ | ⟨⟨⟩, _⟩ | ⟨_, ⟨⟩⟩ | ⟨_, ⟨⟩⟩ | ⟨_, _, _, _, _, ⟨⟩, hEvaluates, hInside⟩ :=
        hVisits.altOr_cases (givesTrees hFirstGive).wellBehaved
      obtain ⟨init, final, rest, verdict, next, hFirstRow, hTries, hShown, hEnded⟩ :=
        tries_of_runs hIgnores hFirstGive
          (Program.runs_iff_exists_evaluates.mpr ⟨_, hEvaluates, rfl⟩) hSame
      obtain ⟨trees, _, _, rfl, _, _⟩ := Verdict.shows_err hShown
      obtain ⟨rfl, hExhausts⟩ := hTries.exhausts
      rw [← hFirstRow] at hExhausts
      obtain ⟨hTaken, hFromPair, ⟨after, hRow⟩, more, last, hOthers, hKept⟩ :=
        ih hSecondGive hInside (hEnded.noting _ _)
      refine ⟨hTaken, hFromPair, ⟨after, by simp [operands, hRow]⟩, trees ++ more, last, ?_, hKept⟩
      exact Alternative.exhausts_append_iff.mpr ⟨_, _, _, rfl, hExhausts, hOthers⟩

theorem visits_of_exhausts {trees : List (ErrorTree (Value κ))} (hIgnores : host.IgnoresJournal)
    (hGive : ∀ a ∈ b.operands, a.GivesTrees host) (hRow : b.operands = before ++ a :: after)
    (hExhausts : Alternative.Exhausts host (.pair user (.bool flag)) before world trees last)
    (hSame : host.SameTrace world other) :
    ∃ waiting now, Awaits (.pair user (.bool flag)) b before a waiting ∧
      Visits host a.program (.pair user (.bool flag)) now (.program b.program)
        (.pair user (.bool flag)) other waiting ∧ host.SameTrace last now := by
  induction b generalizing before after world other trees last with
  | operand b =>
      obtain ⟨rfl, rfl, rfl⟩ := operands_eq_split hRow
      cases hExhausts
      exact ⟨[], other, .operand, .here, hSame⟩
  | either mark first second hFirstIh hSecondIh =>
      obtain ⟨hFirstGive, hSecondGive⟩ := List.forall_mem_append.mp hGive
      rcases append_eq_split hRow with ⟨rest, hFirstRow, rfl⟩ | ⟨later, rfl, hSecondRow⟩
      · obtain ⟨waiting, now, hAwaits, hVisits, hKept⟩ := hFirstIh hFirstGive hFirstRow hExhausts hSame
        exact ⟨_, now, .first hAwaits, hVisits.altOr_first, hKept⟩
      · obtain ⟨_, _, next, rfl, hEarlier, hOthers⟩ := Alternative.exhausts_append_iff.mp hExhausts
        have hFirstRow := (List.dropLast_concat_getLast first.operands_ne_nil).symm
        rw [hFirstRow, Alternative.exhausts_concat_iff] at hEarlier
        obtain ⟨left, hTries⟩ := hEarlier
        obtain ⟨outcome, failed, hRuns, hShown, hEnded⟩ :=
          runs_of_tries hIgnores hFirstGive hFirstRow hTries hSame
        cases hShown with
        | @failed _ tree _ _ steps _ =>
            obtain ⟨root, children⟩ := tree
            obtain ⟨waiting, now, hAwaits, hVisits, hKept⟩ :=
              hSecondIh hSecondGive hSecondRow hOthers (hEnded.symm.noting .backtracked
                (.tree root (Value.ofTrees children))).symm
            obtain ⟨ending, hEvaluates, hReturned⟩ := Program.runs_iff_exists_evaluates.mp hRuns
            cases ending with
            | returned value state cost =>
                cases hReturned
                exact ⟨_, now, .second _ hAwaits, Visits.altOr_second hEvaluates hVisits, hKept⟩
            | raised | replaced => cases hReturned

/-- How a row of alternatives is grouped by alternation does not matter but for the shape of the tree.
Both groupings take up the same alternatives, each from the pair in which the whole began, until the same
one decides, and come to the same end; and a failure records what the trees of the ones tried record, in
trial order. Every chain, and every mixture of the operators, is such a grouping. -/
theorem grouping_immaterial {left right : Bracketing κ} (hRow : left.operands = right.operands)
    (hGive : ∀ a ∈ left.operands, a.GivesTrees host) (hIgnores : host.IgnoresJournal)
    (user : Value κ) (flag : Bool) (world : World ω) :
    (∀ outcome final, left.program.Runs host (.pair user (.bool flag)) world outcome final →
      ∃ before a after verdict last other finish, left.operands = before ++ a :: after ∧
        Alternative.Tries host (.pair user (.bool flag)) before a after world verdict last ∧
        verdict.Shows outcome ∧ host.SameTrace final last ∧
        right.program.Runs host (.pair user (.bool flag)) world other finish ∧
        verdict.Shows other ∧ host.SameTrace finish last) ∧
    (∀ before a waiting q seen now count steps, Awaits (.pair user (.bool flag)) left before a waiting →
      Machine.Reaches host count (Machine.start left.program (.pair user (.bool flag))) world
        ⟨.take q, seen, waiting, steps⟩ now →
      q = a.program ∧ seen = .pair user (.bool flag) ∧
        ∃ trees last again,
          Alternative.Exhausts host (.pair user (.bool flag)) before world trees last ∧
          host.SameTrace now last ∧
          right.Starts host (.pair user (.bool flag)) world before a again ∧
          host.SameTrace again last) ∧
    ((∀ a ∈ left.operands, ∀ world, ∃ outcome final,
        a.program.Runs host (.pair user (.bool flag)) world outcome final) →
      ∃ outcome final, left.program.Runs host (.pair user (.bool flag)) world outcome final) ∧
    (∀ (first : Alternative κ) others, ∃ b : Bracketing κ, b.operands = first :: others ∧
      b.program = (Alternative.choice first others).program) ∧
    (∀ (first : Alternative κ) others, ∃ b : Bracketing κ, b.operands = first :: others ∧
      b.program = (Alternative.altOrRightAssoc first others).program) ∧
    ∀ mark given number (first second : Bracketing κ),
      Value.bar (.alternative mark first.program) (.alternative given second.program) =
        .ok (.alternative none (either none first second).program) ∧
      Value.power (.alternative mark first.program) (.alternative given second.program) =
        .ok (.alternative none (either none first second).program) ∧
      (Value.alternative none (either none first second).program).marked number =
        .alternative (some number) (either (some number) first second).program := by
  have hGiveRight : ∀ a ∈ right.operands, a.GivesTrees host := hRow ▸ hGive
  refine ⟨?_, ?_, ?_, exists_choice, exists_altOrRightAssoc, fun _ _ _ _ _ => ⟨rfl, rfl, rfl⟩⟩
  · intro outcome final hRuns
    obtain ⟨before, a, after, verdict, last, hSplit, hTries, hShown, hSame⟩ :=
      tries_of_runs hIgnores hGive hRuns (.refl host world)
    obtain ⟨other, finish, hOthers, hShownOther, hSameOther⟩ :=
      runs_of_tries hIgnores hGiveRight (hRow ▸ hSplit) hTries (.refl host world)
    exact ⟨before, a, after, verdict, last, other, finish, hSplit, hTries, hShown, hSame, hOthers,
      hShownOther, hSameOther.symm⟩
  · intro before a waiting q seen now count steps hAwaits hReaches
    have hVisits := Machine.exists_reaches_take_iff.mp ⟨count, steps, hReaches⟩
    obtain ⟨hTaken, hFromPair, ⟨after, hSplit⟩, trees, last, hExhausts, hSame⟩ :=
      exhausts_of_visits hIgnores hGive hAwaits hVisits (.refl host world)
    obtain ⟨elsewhere, again, hAwaitsRight, hVisitsRight, hSameRight⟩ :=
      visits_of_exhausts hIgnores hGiveRight (hRow ▸ hSplit) hExhausts (.refl host world)
    obtain ⟨fuel, more, hStarts⟩ := Machine.exists_reaches_take_iff.mpr hVisitsRight
    exact ⟨hTaken, hFromPair, trees, last, again, hExhausts, hSame,
      ⟨elsewhere, fuel, more, hAwaitsRight, hStarts⟩, hSameRight.symm⟩
  · intro hEnds
    obtain ⟨first, others, hListed⟩ := List.exists_cons_of_ne_nil left.operands_ne_nil
    obtain ⟨before, a, after, verdict, last, hSplit, hTries⟩ :=
      Alternative.exists_tries (hListed ▸ hGive) (hListed ▸ hEnds) world
    obtain ⟨outcome, final, hRuns, _⟩ :=
      runs_of_tries hIgnores hGive (hListed.trans hSplit) hTries (.refl host world)
    exact ⟨outcome, final, hRuns⟩

/-- An abort in a row that is grouped in pairs, and from the middle, with debugging on. -/
theorem grouping_immaterial_over_abort :
    ∃ tree steps finish, (either none (operand (.error (.str "a")))
        (either none (either none (operand (.error (.str "b"))) (operand (.abort (.str "c"))))
          (operand (.error (.str "d"))))).program.Runs (Script.host true 9)
            (.pair (.int 0) (.bool false)) (Script.stepWorld [] 0)
            (.returned (.err (.ofTree tree)) (.pair (.int 0) (.bool true)) steps) finish ∧
      tree.values = [.str "a", .str "b", .str "c"] := by
  let left : Bracketing Script.Code :=
    either none (either none (operand (.error (.str "a"))) (operand (.error (.str "b"))))
      (either none (operand (.abort (.str "c"))) (operand (.error (.str "d"))))
  let right : Bracketing Script.Code :=
    either none (operand (.error (.str "a"))) (either none (either none
      (operand (.error (.str "b"))) (operand (.abort (.str "c")))) (operand (.error (.str "d"))))
  have hRow : left.operands = right.operands := rfl
  have hGive : ∀ a ∈ left.operands, a.GivesTrees (Script.host true 9) := by
    simp [left, operands, Alternative.error_givesTrees, Alternative.abort_givesTrees]
  obtain ⟨last, hRuns⟩ : ∃ last, left.program.Runs (Script.host true 9) (.pair (.int 0) (.bool false))
      (Script.stepWorld [] 0)
      (.returned (.err (.ofTree (.node (.str "a") [.leaf (.str "b"), .leaf (.str "c")])))
        (.pair (.int 0) (.bool true)) 17) last :=
    ⟨_, 40, rfl⟩
  obtain ⟨hEnds, _⟩ := grouping_immaterial hRow hGive (Script.host_ignoresJournal true 9) (.int 0) false
    (Script.stepWorld [] 0)
  obtain ⟨_, _, _, verdict, _, other, finish, _, _, hShown, _, hOthers, hShownOther, _⟩ :=
    hEnds _ _ hRuns
  obtain ⟨trees, root, children, rfl, hSame, hRecorded⟩ := Verdict.shows_err hShown
  cases hShownOther with
  | @failed _ tree _ _ steps hKept =>
      have hBuilt : ErrorTree.node root children =
          .node (.str "a") [.leaf (.str "b"), .leaf (.str "c")] :=
        Value.ofTree_inj.mp hSame.symm
      refine ⟨tree, steps, finish, hOthers, ?_⟩
      rw [hKept, ← hRecorded, hBuilt]
      simp

end Row

end Bracketing

end Backtrack
