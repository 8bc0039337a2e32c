import Backtrack.Proofs.Sequencing
import Backtrack.Proofs.Visits

namespace Backtrack

variable {κ τ ω α : Type} {host : Host κ τ ω} {state left sent value : Value κ}
  {values collected items : List (Value κ)} {steps : Nat} {world next final : World ω}
  {outcome : Outcome κ}

inductive Outcome.Stops : Outcome κ → Prop where
  | failed {failure state : Value κ} {steps : Nat} : Stops (.returned (.err failure) state steps)
  | raised {exception : Raised κ} : Stops (.raised exception)

def Outcome.prepending (values : List (Value κ)) : Outcome κ → Outcome κ
  | .returned (.ok (.list items)) state steps => .returned (.ok (.list (values ++ items))) state steps
  | other => other

theorem Outcome.prepending_after (values : List (Value κ)) (spent : Nat) (outcome : Outcome κ) :
    (outcome.after spent).prepending values = (outcome.prepending values).after spent := by
  cases outcome with
  | raised exception => rfl
  | returned value state steps =>
      cases value with
      | ok value => cases value <;> rfl
      | _ => rfl

theorem Outcome.Stops.after (hStops : outcome.Stops) (spent : Nat) : (outcome.after spent).Stops := by
  cases hStops with
  | failed => exact .failed
  | raised => exact .raised

theorem Outcome.Stops.prepending (hStops : outcome.Stops) (values : List (Value κ)) :
    outcome.prepending values = outcome := by
  cases hStops <;> rfl

namespace Outcomes

variable {E : α → Value κ → World ω → Outcomes κ ω} {a : α} {row rest : List α}

inductive Succeeds (E : α → Value κ → World ω → Outcomes κ ω) :
    List α → Value κ → World ω → List (Value κ) → Value κ → Nat → World ω → Prop where
  | nil {state : Value κ} {world : World ω} : Succeeds E [] state world [] state 0 world
  | cons {a : α} {rest : List α} {state left last value : Value κ} {values : List (Value κ)}
      {steps more : Nat} {world next final : World ω} :
      E a state world (.returned (.ok value) left steps) next →
      Succeeds E rest left next values last more final →
      Succeeds E (a :: rest) state world (value :: values) last (steps + more) final

/-- How a row ends after some values: with those and its own in order if every element succeeds, and
otherwise as the first element does that stops it, from the pair that the one before left. -/
inductive Collects (E : α → Value κ → World ω → Outcomes κ ω) (collected : List (Value κ)) :
    List α → Value κ → World ω → Outcome κ → World ω → Prop where
  | gathered {row : List α} {state last : Value κ} {values : List (Value κ)} {steps : Nat}
      {world final : World ω} :
      Succeeds E row state world values last steps final →
      Collects E collected row state world (.returned (.ok (.list (collected ++ values))) last steps)
        final
  | stopped {before : List α} {a : α} {rest : List α} {state left : Value κ} {values : List (Value κ)}
      {steps : Nat} {world next final : World ω} {outcome : Outcome κ} :
      Succeeds E before state world values left steps next →
      E a left next outcome final → outcome.Stops →
      Collects E collected (before ++ a :: rest) state world (outcome.after steps) final

theorem succeeds_nil_iff :
    Succeeds E [] state world values left steps final ↔
      values = [] ∧ left = state ∧ steps = 0 ∧ final = world := by
  constructor
  · intro hSucceeds
    cases hSucceeds
    exact ⟨rfl, rfl, rfl, rfl⟩
  · rintro ⟨rfl, rfl, rfl, rfl⟩
    exact .nil

theorem collects_nil_iff :
    Collects E collected [] state world outcome final ↔
      outcome = .returned (.ok (.list collected)) state 0 ∧ final = world := by
  constructor
  · intro hCollects
    generalize hNone : ([] : List α) = row at hCollects
    cases hCollects with
    | gathered hSucceeds =>
        subst hNone
        obtain ⟨rfl, rfl, rfl, rfl⟩ := succeeds_nil_iff.mp hSucceeds
        simp
    | stopped => simp at hNone
  · rintro ⟨rfl, rfl⟩
    have hGathered : Collects E collected [] state final (.returned (.ok (.list (collected ++ []))) state 0)
        final := .gathered .nil
    rwa [List.append_nil] at hGathered

theorem collects_cons_iff :
    Collects E collected (a :: rest) state world outcome final ↔
      andThen (E a state world)
        (Sequel fun value left next => Collects E (collected ++ [value]) rest left next) outcome final := by
  constructor
  · intro hCollects
    generalize hWhole : a :: rest = row at hCollects
    cases hCollects with
    | gathered hSucceeds =>
        subst hWhole
        cases hSucceeds with
        | @cons _ _ _ _ _ value _ _ _ _ _ _ hFirst hOnward =>
            refine ⟨_, _, hFirst, sequel_continued_iff.mpr ⟨_, .gathered hOnward, ?_⟩⟩
            rw [List.append_assoc]
            rfl
    | @stopped before _ _ _ _ _ _ _ _ _ _ hSucceeds hEnds hStops =>
        cases before with
        | nil =>
            obtain ⟨rfl, rfl⟩ := List.cons.inj hWhole
            obtain ⟨rfl, rfl, rfl, rfl⟩ := succeeds_nil_iff.mp hSucceeds
            refine ⟨_, _, hEnds, ?_⟩
            cases hStops with
            | failed =>
                rw [Outcome.after, Nat.zero_add]
                exact .failed
            | raised => exact .raised
        | cons =>
            obtain ⟨rfl, rfl⟩ := List.cons.inj hWhole
            cases hSucceeds with
            | @cons _ _ _ _ _ _ _ steps more _ _ _ hFirst hOnward =>
                refine ⟨_, _, hFirst, ?_⟩
                rw [← Outcome.after_after]
                exact .continued (.stopped hOnward hEnds hStops)
  · rintro ⟨_, _, hFirst, hSequel⟩
    cases hSequel with
    | failed =>
        rw [← Outcome.after_zero (.returned _ _ _)]
        exact .stopped .nil hFirst .failed
    | raised => exact .stopped .nil hFirst .raised
    | continued hOnward =>
        cases hOnward with
        | gathered hSucceeds =>
            rw [List.append_assoc]
            exact .gathered (.cons hFirst hSucceeds)
        | stopped hSucceeds hEnds hStops =>
            rw [Outcome.after_after]
            exact .stopped (.cons hFirst hSucceeds) hEnds hStops

theorem collects_prepending_iff :
    Collects E (values ++ collected) row state world outcome final ↔
      ∃ inner, Collects E collected row state world inner final ∧ outcome = inner.prepending values := by
  constructor
  · intro hCollects
    cases hCollects with
    | gathered hSucceeds =>
        rw [List.append_assoc]
        exact ⟨_, .gathered hSucceeds, rfl⟩
    | stopped hSucceeds hEnds hStops =>
        exact ⟨_, .stopped hSucceeds hEnds hStops, ((hStops.after _).prepending values).symm⟩
  · rintro ⟨inner, hCollects, rfl⟩
    cases hCollects with
    | gathered hSucceeds =>
        rw [Outcome.prepending, ← List.append_assoc]
        exact .gathered hSucceeds
    | stopped hSucceeds hEnds hStops =>
        rw [(hStops.after _).prepending]
        exact .stopped hSucceeds hEnds hStops

theorem collects_append_iff {others : List α} :
    Collects E collected (row ++ others) state world outcome final ↔
      andThen (Collects E collected row state world)
        (Sequel fun value left next outcome final => ∃ items, value = .list items ∧
          Collects E items others left next outcome final) outcome final := by
  induction row generalizing collected state world outcome final with
  | nil =>
      rw [List.nil_append, andThen_of_only fun _ _ => collects_nil_iff, sequel_continued_iff]
      constructor
      · intro hCollects
        refine ⟨outcome, ⟨collected, rfl, hCollects⟩, ?_⟩
        simp
      · rintro ⟨inner, ⟨_, ⟨⟩, hCollects⟩, rfl⟩
        simpa using hCollects
  | cons a rest ih =>
      let onward : Value κ → Value κ → World ω → Outcomes κ ω := fun value left next outcome final =>
        ∃ items, value = .list items ∧ Collects E items others left next outcome final
      have hTail : (fun value left next => Collects E (collected ++ [value]) (rest ++ others) left next) =
          fun value left next =>
            andThen (Collects E (collected ++ [value]) rest left next) (Sequel onward) := by
        funext value left next outcome final
        exact propext ih
      have hHead : Collects E collected (a :: rest) state world = andThen (E a state world)
          (Sequel fun value left next => Collects E (collected ++ [value]) rest left next) := by
        funext outcome final
        exact propext collects_cons_iff
      rw [List.cons_append, collects_cons_iff, hTail, hHead, andThen_assoc]
      exact exists_congr fun first => exists_congr fun next =>
        and_congr_right fun _ => sequel_andThen_iff.symm

section Proper

variable (hProper : ∀ a ∈ row, ∀ user flag world, Proper (E a (.pair user (.bool flag)) world))
include hProper

theorem Succeeds.isStatePair (hSucceeds : Succeeds E row state world values left steps final)
    (hPair : state.IsStatePair) : left.IsStatePair := by
  induction hSucceeds with
  | nil => exact hPair
  | cons hFirst _ ih =>
      obtain ⟨user, flag⟩ := hPair
      apply ih fun b hLater => hProper b (List.mem_cons_of_mem _ hLater)
      exact (hProper _ (List.mem_cons_self ..) user flag _ _ _ _ _ hFirst).2

theorem collects_proper (hPair : state.IsStatePair) : Proper (Collects E collected row state world) := by
  intro value last steps final hCollects
  generalize hReturned : Outcome.returned value last steps = outcome at hCollects
  cases hCollects with
  | gathered hSucceeds =>
      cases hReturned
      exact ⟨rfl, hSucceeds.isStatePair hProper hPair⟩
  | @stopped before a rest _ _ _ _ _ _ _ ended hSucceeds hEnds hStops =>
      obtain ⟨user, flag⟩ := hSucceeds.isStatePair
        (fun b hEarly => hProper b (List.mem_append_left _ hEarly)) hPair
      have hWithin : a ∈ before ++ a :: rest := by simp
      cases hStops with
      | failed =>
          cases hReturned
          exact hProper a hWithin user flag _ _ _ _ _ hEnds
      | raised => cases hReturned

end Proper

theorem Succeeds.length_le {ahead : List α} {a : α} {others : List (Value κ)} {seen : Value κ}
    {more : Nat} {now : World ω}
    (hUnique : ∀ a state world first second final last,
      E a state world first final → E a state world second last → first = second ∧ final = last)
    (hSucceeds : Succeeds E row state world values left steps next) (hEnds : E a left next outcome final)
    (hStops : outcome.Stops) (hReached : Succeeds E ahead state world others seen more now)
    (hWithin : ahead <+: row ++ a :: rest) : ahead.length ≤ row.length := by
  induction hSucceeds generalizing ahead others more with
  | nil =>
      cases hReached with
      | nil => exact Nat.le_refl 0
      | cons hFirst =>
          obtain ⟨rfl, _⟩ := List.cons_prefix_cons.mp hWithin
          obtain ⟨rfl, _⟩ := hUnique _ _ _ _ _ _ _ hFirst hEnds
          cases hStops
  | cons hFirst _ ih =>
      cases hReached with
      | nil => exact Nat.zero_le _
      | cons hAgain hOnward =>
          obtain ⟨rfl, hTails⟩ := List.cons_prefix_cons.mp hWithin
          obtain ⟨⟨⟩, rfl⟩ := hUnique _ _ _ _ _ _ _ hAgain hFirst
          exact Nat.succ_le_succ (ih hEnds hOnward hTails)

end Outcomes

inductive Host.RunsChosen (host : Host κ τ ω) (choice : Exec κ ω (Program κ)) (state : Value κ)
    (world : World ω) : Outcome κ → World ω → Prop where
  | ran {p : Program κ} {next final : World ω} {outcome : Outcome κ} :
      choice world = .ok p next → p.Runs host state next outcome final →
      RunsChosen host choice state world outcome final
  | raised {exception : Raised κ} {next : World ω} :
      choice world = .error (.raised exception) next →
      RunsChosen host choice state world (.raised exception) next

namespace Host.RunsChosen

variable {choice : Exec κ ω (Program κ)} {p : Program κ} {exception : Raised κ}

theorem ran_iff (hChosen : choice world = .ok p next) :
    host.RunsChosen choice state world outcome final ↔ p.Runs host state next outcome final := by
  constructor
  · intro hRuns
    cases hRuns with
    | ran hOther hRuns =>
        rw [hChosen] at hOther
        cases hOther
        exact hRuns
    | raised hOther =>
        rw [hChosen] at hOther
        cases hOther
  · exact .ran hChosen

theorem raised_iff (hFailed : choice world = .error (.raised exception) next) :
    host.RunsChosen choice state world outcome final ↔ outcome = .raised exception ∧ final = next := by
  constructor
  · intro hRuns
    cases hRuns with
    | ran hOther =>
        rw [hFailed] at hOther
        cases hOther
    | raised hOther =>
        rw [hFailed] at hOther
        cases hOther
        exact ⟨rfl, rfl⟩
  · rintro ⟨rfl, rfl⟩
    exact .raised hFailed

theorem not_of_exhausted (hFailed : choice world = .error .exhausted next) :
    ¬ host.RunsChosen choice state world outcome final := by
  intro hRuns
  cases hRuns with
  | ran hOther | raised hOther =>
      rw [hFailed] at hOther
      cases hOther

end Host.RunsChosen

namespace Frame

open Outcomes

variable {choose : α → Exec κ ω (Program κ)} {frame : List α → List (Value κ) → Frame κ τ}
  {row : List α} {g bottom : Frame κ τ} {q : Program κ} {seen : Value κ} {now : World ω}

/-- The next element of a row is chosen and run, or the values that it gave are returned in order. -/
def rowNext (choose : α → Exec κ ω (Program κ)) (frame : List α → List (Value κ) → Frame κ τ)
    (collected : List (Value κ)) : List α → Exec κ ω (Step κ (Frame κ τ))
  | [] => finish (.ok (.list collected.reverse))
  | a :: rest => choose a >>= fun p => yieldProgram p (frame rest collected)

/-- What is left of a generator that goes through a row, after each of its elements. -/
structure Gathers (host : Host κ τ ω) (choose : α → Exec κ ω (Program κ))
    (frame : List α → List (Value κ) → Frame κ τ) : Prop where
  passes : ∀ rest collected, (frame rest collected).PassesFailures host
  goesOn : ∀ rest collected value world, (frame rest collected).resume host (.ok value) world =
    rowNext choose frame (value :: collected) rest world

namespace Gathers

variable (hGathers : Gathers host choose frame)
include hGathers

/-- A generator that goes through a row comes to what that collects. -/
theorem comes_iff_collects
    (hProper : ∀ a ∈ row, ∀ user flag world,
      Proper (host.RunsChosen (choose a) (.pair user (.bool flag)) world))
    (hPair : state.IsStatePair)
    (hResumed : g.resume host sent world = rowNext choose frame collected row world) :
    g.Comes host sent state world outcome final ↔
      Collects (fun a => host.RunsChosen (choose a)) collected.reverse row state world outcome final := by
  induction row generalizing g sent collected state world outcome final with
  | nil =>
      rw [collects_nil_iff]
      exact comes_of_returned hResumed
  | cons a rest ih =>
      obtain ⟨user, flag⟩ := hPair
      have hOfElement := hProper a (List.mem_cons_self ..) user flag world
      rw [collects_cons_iff]
      cases hChosen : choose a world with
      | ok p start =>
          have hYielded := hResumed.trans (Exec.bind_of_ok hChosen)
          have hSame : host.RunsChosen (choose a) (.pair user (.bool flag)) world =
              p.Runs host (.pair user (.bool flag)) start := by
            funext outcome final
            exact propext (Host.RunsChosen.ran_iff hChosen)
          rw [hSame] at hOfElement ⊢
          apply comes_iff_sequel hYielded (hGathers.passes rest collected) hOfElement
          intro value left steps next hRuns outcome final
          rw [← List.reverse_cons]
          exact ih (fun b hLater => hProper b (List.mem_cons_of_mem a hLater)) (hOfElement _ _ _ _ hRuns).2
            (hGathers.goesOn rest collected value next)
      | error halt start =>
          have hFailed := hResumed.trans (Exec.bind_of_error hChosen)
          cases halt with
          | raised exception =>
              rw [andThen_of_only fun _ _ => Host.RunsChosen.raised_iff hChosen, sequel_raised_iff]
              exact comes_of_raised hFailed
          | exhausted =>
              refine iff_of_false (not_comes_of_exhausted hFailed) ?_
              rintro ⟨_, _, hRuns, _⟩
              exact Host.RunsChosen.not_of_exhausted hChosen hRuns

section Visits

variable
  (hProper : ∀ a ∈ row, ∀ user flag world,
    Proper (host.RunsChosen (choose a) (.pair user (.bool flag)) world))
  (hPair : state.IsStatePair)
  (hResumed : g.resume host sent world = rowNext choose frame collected row world)
include hProper hPair hResumed

theorem succeeds_of_visits (hVisits : Visits host q seen now (.generator g sent) state world [bottom]) :
    ∃ before a after values steps next, row = before ++ a :: after ∧
      Succeeds (fun a => host.RunsChosen (choose a)) before state world values seen steps next ∧
      choose a next = .ok q now ∧ bottom = frame after (values.reverse ++ collected) := by
  induction row generalizing g sent collected state world with
  | nil => exact absurd hVisits (Visits.of_returned hResumed)
  | cons a rest ih =>
      obtain ⟨user, flag⟩ := hPair
      cases hChosen : choose a world with
      | error halt start =>
          have hFailed := hResumed.trans (Exec.bind_of_error hChosen)
          generalize [bottom] = waiting at hVisits
          cases hVisits with
          | inside hOther | later hOther =>
              rw [hFailed] at hOther
              cases hOther
      | ok p start =>
          have hYielded := hResumed.trans (Exec.bind_of_ok hChosen)
          rw [← List.nil_append [bottom]] at hVisits
          rcases hVisits.yielded_cases hYielded with
            ⟨rfl, hTaken⟩ | ⟨value, middle, cost, next, hEvaluates, hLater⟩
          · obtain ⟨rfl, rfl, rfl⟩ := Visits.program_nil_iff.mp hTaken
            exact ⟨[], a, rest, [], 0, world, rfl, .nil, hChosen, rfl⟩
          have hRuns : host.RunsChosen (choose a) (.pair user (.bool flag)) world
              (.returned value middle cost) next :=
            .ran hChosen (Program.runs_iff_exists_evaluates.mpr ⟨_, hEvaluates, rfl⟩)
          obtain ⟨hResult, hPair⟩ := hProper a List.mem_cons_self _ _ _ _ _ _ _ hRuns
          cases value with
          | ok value =>
              obtain ⟨before, b, after, values, steps, last, rfl, hSucceeds, hPicked, rfl⟩ :=
                ih (fun b hLater => hProper b (List.mem_cons_of_mem a hLater)) hPair
                  (hGathers.goesOn rest collected value next) hLater
              refine ⟨a :: before, b, after, value :: values, cost + steps, last, rfl,
                .cons hRuns hSucceeds, hPicked, ?_⟩
              simp
          | err failure =>
              exact absurd hLater
                (Visits.of_returned ((hGathers.passes rest collected).failed failure next))
          | _ => cases hResult

theorem visits_of_succeeds {before after : List α} {a : α} {values : List (Value κ)} {steps : Nat}
    {next : World ω} (hWhole : row = before ++ a :: after)
    (hSucceeds : Succeeds (fun a => host.RunsChosen (choose a)) before state world values seen steps next)
    (hChosen : choose a next = .ok q now) :
    Visits host q seen now (.generator g sent) state world
      [frame after (values.reverse ++ collected)] := by
  induction before generalizing row g sent collected state world values steps with
  | nil =>
      cases hSucceeds
      subst hWhole
      exact .inside (hResumed.trans (Exec.bind_of_ok hChosen)) .here
  | cons first before ih =>
      subst hWhole
      cases hSucceeds with
      | @cons _ _ _ middle _ value values cost more _ between _ hRuns hSucceeds =>
          obtain ⟨user, flag⟩ := hPair
          have hPair := (hProper first List.mem_cons_self user flag world _ _ _ _ hRuns).2
          cases hRuns with
          | ran hPicked hRuns =>
              refine .later (hResumed.trans (Exec.bind_of_ok hPicked)) hRuns.evaluates ?_
              rw [List.reverse_cons, List.append_assoc]
              exact ih (fun b hLater => hProper b (List.mem_cons_of_mem first hLater)) hPair
                (hGathers.goesOn _ collected value between) rfl hSucceeds

theorem visits_iff :
    Visits host q seen now (.generator g sent) state world [bottom] ↔
      ∃ before a after values steps next, row = before ++ a :: after ∧
        Succeeds (fun a => host.RunsChosen (choose a)) before state world values seen steps next ∧
        choose a next = .ok q now ∧ bottom = frame after (values.reverse ++ collected) := by
  constructor
  · exact hGathers.succeeds_of_visits hProper hPair hResumed
  · rintro ⟨before, a, after, values, steps, next, hWhole, hSucceeds, hChosen, rfl⟩
    exact hGathers.visits_of_succeeds hProper hPair hResumed hWhole hSucceeds hChosen

end Visits

end Gathers

end Frame

/-- The program goes through the row in order: it ends as that collects, starts an element once all before
it have succeeded, and starts none after the one that stops it. -/
structure Program.GoesThrough (host : Host κ τ ω) (E : α → Value κ → World ω → Outcomes κ ω)
    (choose : α → Exec κ ω (Program κ)) (frame : List α → List (Value κ) → Frame κ τ) (row : List α)
    (whole : Program κ) (state : Value κ) (world : World ω) : Prop where
  ends : ∀ outcome final, whole.Runs host state world outcome final ↔
    Outcomes.after (Outcomes.Collects E [] row state world) 1 outcome final
  starts : ∀ q seen bottom now,
    (∃ count more, Machine.Reaches host count (Machine.start whole state) world
      ⟨.take q, seen, [bottom], more⟩ now) ↔
    ∃ before a after values steps next, row = before ++ a :: after ∧
      Outcomes.Succeeds E before state world values seen steps next ∧
      choose a next = .ok q now ∧ bottom = frame after values.reverse
  halts : ∀ before a after values left steps next outcome last, row = before ++ a :: after →
    Outcomes.Succeeds E before state world values left steps next → E a left next outcome last →
    outcome.Stops → ∀ count q seen bottom more now,
      Machine.Reaches host count (Machine.start whole state) world ⟨.take q, seen, [bottom], more⟩ now →
      ∃ rest values, bottom = frame rest values ∧ after.length ≤ rest.length

theorem Host.RunsChosen.unique {choice : Exec κ ω (Program κ)} {other : Outcome κ} {last : World ω}
    (hRuns : host.RunsChosen choice state world outcome final)
    (hAgain : host.RunsChosen choice state world other last) : outcome = other ∧ final = last := by
  cases hRuns with
  | ran hChosen hRuns => exact hRuns.unique ((ran_iff hChosen).mp hAgain)
  | raised hFailed =>
      obtain ⟨rfl, rfl⟩ := (raised_iff hFailed).mp hAgain
      exact ⟨rfl, rfl⟩

theorem Frame.Gathers.goesThrough {choose : α → Exec κ ω (Program κ)} {row : List α} {r : Recipe κ}
    {frame : List α → List (Value κ) → Frame κ τ} {mark : Mark} (hGathers : Frame.Gathers host choose frame)
    (hProper : ∀ a ∈ row, ∀ user flag world,
      Outcomes.Proper (host.RunsChosen (choose a) (.pair user (.bool flag)) world))
    (hBegun : ∀ world, Frame.begin host r world = Frame.rowNext choose frame [] row world)
    (hPair : state.IsStatePair) :
    Program.GoesThrough host (fun a => host.RunsChosen (choose a)) choose frame row
      (.generator mark r) state world := by
  have hStarts : ∀ q seen bottom now,
      (∃ count more, Machine.Reaches host count (Machine.start (.generator mark r) state) world
        ⟨.take q, seen, [bottom], more⟩ now) ↔
      ∃ before a after values steps next, row = before ++ a :: after ∧
        Outcomes.Succeeds (fun a => host.RunsChosen (choose a)) before state world values seen steps
          next ∧ choose a next = .ok q now ∧ bottom = frame after values.reverse := by
    intro q seen bottom now
    have hResumed : (Frame.fresh r).resume host .null world = Frame.rowNext choose frame [] row world :=
      hBegun world
    rw [Machine.exists_reaches_take_iff, ← List.nil_append [bottom], Visits.generator_iff,
      List.nil_append, hGathers.visits_iff hProper hPair hResumed]
    simp only [List.append_nil]
  refine ⟨fun outcome final => ?_, hStarts, ?_⟩
  · rw [Program.generator_runs_iff]
    have hResumed : (Frame.fresh r).resume host .null world = Frame.rowNext choose frame [] row world :=
      hBegun world
    exact exists_congr fun inner => and_congr_left fun _ =>
      hGathers.comes_iff_collects hProper hPair hResumed
  · intro before a after values left steps next outcome last hWhole hSucceeds hEnds hStops count q seen
      bottom more now hReaches
    obtain ⟨ahead, b, rest, others, _, _, hRow_eq, hReached, _, rfl⟩ :=
      (hStarts q seen bottom now).mp ⟨count, more, hReaches⟩
    refine ⟨rest, others.reverse, rfl, ?_⟩
    have hWithin : ahead <+: before ++ a :: after := by
      rw [← hWhole, hRow_eq]
      exact List.prefix_append ahead (b :: rest)
    have hAhead_le : ahead.length ≤ before.length :=
      hSucceeds.length_le (fun _ _ _ _ _ _ _ hFirst hAgain => hFirst.unique hAgain) hEnds hStops hReached
        hWithin
    have hLengths := congrArg List.length (hWhole.symm.trans hRow_eq)
    simp only [List.length_append, List.length_cons] at hLengths
    omega

end Backtrack
