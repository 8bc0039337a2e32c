import Backtrack.Proofs.Evaluation

namespace Backtrack

variable {κ τ ω : Type} {lacking : Bool}

/-- In the course of the evaluation the program is taken up in the state `seen` and the world `at`, while
the generators of the list wait, innermost first. -/
inductive Visits (host : Host κ τ ω lacking) (q : Program κ) (seen : Value κ) (now : World ω) :
    Activity κ τ → Value κ → World ω → List (Frame κ τ) → Prop where
  | here : Visits host q seen now (.program q) seen now []
  | generator {mark r state world waiting} :
      Visits host q seen now (.generator (.fresh r) .null) state world waiting →
      Visits host q seen now (.program (.generator mark r)) state world waiting
  | inside {frame rest : Frame κ τ} {p sent state world start waiting} :
      frame.resume host sent world = .ok (.yielded (.program p) rest) start →
      Visits host q seen now (.program p) state start waiting →
      Visits host q seen now (.generator frame sent) state world (waiting ++ [rest])
  | later {frame rest : Frame κ τ} {p sent state world start value middle cost next waiting} :
      frame.resume host sent world = .ok (.yielded (.program p) rest) start →
      Evaluates host (.program p) state start (.returned value middle cost) next →
      Visits host q seen now (.generator rest value) middle next waiting →
      Visits host q seen now (.generator frame sent) state world waiting

namespace Visits

variable {host : Host κ τ ω lacking} {q : Program κ} {seen state sent : Value κ} {now world start : World ω}
  {frame rest : Frame κ τ} {above waiting : List (Frame κ τ)}

theorem waiting_ne_nil
    (hVisits : Visits host q seen now (.generator frame sent) state world waiting) :
    waiting ≠ [] := by
  generalize hVisited : Activity.generator frame sent = activity at hVisits
  induction hVisits generalizing frame sent with
  | here | generator => cases hVisited
  | inside => simp
  | later _ _ _ ih => exact ih rfl

theorem program_nil_iff {p : Program κ} :
    Visits host q seen now (.program p) state world [] ↔ q = p ∧ seen = state ∧ now = world := by
  constructor
  · intro hVisits
    cases hVisits with
    | here => exact ⟨rfl, rfl, rfl⟩
    | generator hVisits => exact absurd rfl hVisits.waiting_ne_nil
  · rintro ⟨rfl, rfl, rfl⟩
    exact .here

theorem generator_iff {mark : Mark} {r : Recipe κ} {bottom : Frame κ τ} :
    Visits host q seen now (.program (.generator mark r)) state world (above ++ [bottom]) ↔
      Visits host q seen now (.generator (.fresh r) .null) state world (above ++ [bottom]) := by
  constructor
  · intro hVisits
    generalize hWhole : above ++ [bottom] = waiting at hVisits
    cases hVisits with
    | here => simp at hWhole
    | generator hVisits => exact hVisits
  · exact .generator

theorem of_returned {value : Value κ}
    (hResumed : frame.resume host sent world = .ok (.returned value) start) :
    ¬ Visits host q seen now (.generator frame sent) state world waiting := by
  intro hVisits
  cases hVisits with
  | inside hOther | later hOther =>
      rw [hResumed] at hOther
      cases hOther

theorem yielded_cases {p : Program κ} {bottom : Frame κ τ}
    (hResumed : frame.resume host sent world = .ok (.yielded (.program p) rest) start)
    (hVisits : Visits host q seen now (.generator frame sent) state world (above ++ [bottom])) :
    (bottom = rest ∧ Visits host q seen now (.program p) state start above) ∨
      ∃ value middle cost next, Evaluates host (.program p) state start
          (.returned value middle cost) next ∧
        Visits host q seen now (.generator rest value) middle next (above ++ [bottom]) := by
  generalize hWhole : above ++ [bottom] = waiting at hVisits
  cases hVisits with
  | inside hOther hVisits =>
      rw [hResumed] at hOther
      cases hOther
      obtain ⟨rfl, ⟨⟩⟩ := List.append_inj' hWhole rfl
      exact .inl ⟨rfl, hVisits⟩
  | later hOther hEvaluates hVisits =>
      rw [hResumed] at hOther
      cases hOther
      exact .inr ⟨_, _, _, _, hEvaluates, hVisits⟩

end Visits

namespace Machine

variable {host : Host κ τ ω lacking} {activity : Activity κ τ} {state : Value κ} {world final : World ω}

theorem reaches_of_evaluates {value left : Value κ} {cost : Nat}
    (hEvaluates : Evaluates host activity state world (.returned value left cost) final)
    (stack : List (Frame κ τ)) (steps : Nat) :
    ∃ count, Reaches host count (activity.load state stack steps) world
      ⟨.deliver value, left, stack, steps + cost⟩ final := by
  generalize hEnded : Ending.returned value left cost = ending at hEvaluates
  induction hEvaluates generalizing value left cost stack steps with
  | pure | get | put =>
      cases hEnded
      exact ⟨1, .step rfl (.here _ _)⟩
  | modify hApplied =>
      cases hEnded
      exact ⟨1, .step (step_modify_of_ok hApplied) (.here _ _)⟩
  | @generator _ _ _ _ ending _ _ ih =>
      cases ending with
      | returned result last spent =>
          cases hEnded
          obtain ⟨count, hReaches⟩ := ih stack (steps + 1) rfl
          rw [Nat.add_assoc] at hReaches
          exact ⟨count + 1, .step rfl hReaches⟩
      | raised | replaced => cases hEnded
  | returned hResumed =>
      cases hEnded
      exact ⟨1, .step (step_of_returned hResumed) (.here _ _)⟩
  | @yielded _ rest _ _ _ _ _ _ _ _ spent ending _ hResumed _ _ ihProgram ihRest =>
      cases ending with
      | returned result last more =>
          cases hEnded
          obtain ⟨first, hToValue⟩ := ihProgram (rest :: stack) steps rfl
          obtain ⟨second, hToEnd⟩ := ihRest stack (steps + spent) rfl
          rw [Nat.add_assoc] at hToEnd
          exact ⟨first + second + 1, .step (step_of_yielded hResumed) (hToValue.trans hToEnd)⟩
      | raised | replaced => cases hEnded
  | modifyRaised | foreign | foreignEffect | resumeRaised | yieldedRaised | yieldedReplacing
  | yieldedReplaced | stray | strayRaised => cases hEnded

variable {q : Program κ} {seen : Value κ} {now : World ω} {waiting : List (Frame κ τ)}

theorem reaches_of_visits (hVisits : Visits host q seen now activity state world waiting)
    (stack : List (Frame κ τ)) (steps : Nat) :
    ∃ count more, Reaches host count (activity.load state stack steps) world
      ⟨.take q, seen, waiting ++ stack, more⟩ now := by
  induction hVisits generalizing stack steps with
  | here => exact ⟨0, steps, .here _ _⟩
  | generator _ ih =>
      obtain ⟨count, more, hReaches⟩ := ih stack (steps + 1)
      exact ⟨count + 1, more, .step rfl hReaches⟩
  | @inside _ rest _ _ _ _ _ waiting hResumed _ ih =>
      obtain ⟨count, more, hReaches⟩ := ih (rest :: stack) steps
      refine ⟨count + 1, more, .step (step_of_yielded hResumed) ?_⟩
      rw [List.append_assoc]
      exact hReaches
  | @later _ rest _ _ _ _ _ _ _ spent _ _ hResumed hEvaluates _ ih =>
      obtain ⟨first, hToValue⟩ := reaches_of_evaluates hEvaluates (rest :: stack) steps
      obtain ⟨second, more, hReaches⟩ := ih stack (steps + spent)
      exact ⟨first + second + 1, more, .step (step_of_yielded hResumed) (hToValue.trans hReaches)⟩

/-- A machine that takes up a program does so in the course of the activity that it was loaded with, or
after the value of that. -/
theorem Reaches.visits_or_after {count : Nat} {stack : List (Frame κ τ)} {steps more : Nat}
    {full : List (Frame κ τ)}
    (hReaches : Reaches host count (activity.load state stack steps) world
      ⟨.take q, seen, full, more⟩ now) :
    (∃ waiting, full = waiting ++ stack ∧
      Visits host q seen now activity state world waiting) ∨
    ∃ value left cost next less, less < count ∧
      Evaluates host activity state world (.returned value left cost) next ∧
      Reaches host less ⟨.deliver value, left, stack, steps + cost⟩ next
        ⟨.take q, seen, full, more⟩ now := by
  -- What a generator yields and what is left of it take fewer steps each than the two together.
  induction count using Nat.strongRecOn generalizing activity state stack steps world with
  | ind count ih =>
  generalize hMachine : (⟨.take q, seen, full, more⟩ : Machine κ τ) = m at hReaches
  cases hReaches with
  | here =>
      cases activity with
      | program p =>
          cases hMachine
          exact .inl ⟨[], rfl, .here⟩
      | generator frame sent => cases hMachine
  | @step less _ next _ _ after _ hStepped hRest =>
  subst hMachine
  have hShorter : less < less + 1 := Nat.lt_succ_self less
  cases activity with
  | program p =>
      cases p with
      | pure value =>
          cases hStepped
          exact .inr ⟨_, _, _, _, less, hShorter, .pure, hRest⟩
      | get =>
          cases hStepped
          exact .inr ⟨_, _, _, _, less, hShorter, .get, hRest⟩
      | put replacement =>
          cases hStepped
          exact .inr ⟨_, _, _, _, less, hShorter, .put, hRest⟩
      | modify f =>
          obtain ⟨changed, hApplied, ⟨⟩⟩ := step_modify_cases hStepped
          exact .inr ⟨_, _, _, _, less, hShorter, .modify hApplied, hRest⟩
      | generator mark r =>
          cases hStepped
          have hBegun : Reaches host less
              ((Activity.generator (.fresh r) .null).load state stack (steps + 1)) world
              ⟨.take q, seen, full, more⟩ now := hRest
          rcases ih less hShorter hBegun with
            ⟨waiting, rfl, hVisits⟩ | ⟨value, left, cost, last, fewer, hBound, hEvaluates, hOnward⟩
          · exact .inl ⟨waiting, rfl, .generator hVisits⟩
          · refine .inr ⟨value, left, 1 + cost, last, fewer, by omega, .generator hEvaluates, ?_⟩
            rw [← Nat.add_assoc]
            exact hOnward
      | foreign mark | foreignEffect mark => cases hStepped
  | generator frame sent =>
      rcases step_deliver_cases hStepped with
        ⟨value, hResumed, ⟨⟩⟩ | ⟨p, suspended, hResumed, ⟨⟩⟩
      · exact .inr ⟨_, _, _, _, less, hShorter, .returned hResumed, hRest⟩
      have hTaken : Reaches host less ((Activity.program p).load state (suspended :: stack) steps)
          after ⟨.take q, seen, full, more⟩ now := hRest
      rcases ih less hShorter hTaken with
        ⟨waiting, rfl, hVisits⟩ | ⟨value, left, cost, last, fewer, hBound, hEvaluates, hOnward⟩
      · exact .inl ⟨waiting ++ [suspended], by simp, .inside hResumed hVisits⟩
      have hResumes : Reaches host fewer
          ((Activity.generator suspended value).load left stack (steps + cost)) last
          ⟨.take q, seen, full, more⟩ now := hOnward
      rcases ih fewer (by omega) hResumes with
        ⟨waiting, rfl, hVisits⟩ | ⟨result, ended, extra, last, fewest, hTighter, hContinues, hOnward⟩
      · exact .inl ⟨waiting, rfl, .later hResumed hEvaluates hVisits⟩
      · refine .inr ⟨result, ended, cost + extra, last, fewest, by omega,
          .yielded hResumed hEvaluates hContinues, ?_⟩
        rw [← Nat.add_assoc]
        exact hOnward

/-- The run of a program takes up exactly the programs that its evaluation visits. -/
theorem exists_reaches_take_iff {p : Program κ} :
    (∃ count more, Reaches host count (Machine.start p state) world
      ⟨.take q, seen, waiting, more⟩ now) ↔
      Visits host q seen now (.program p) state world waiting := by
  constructor
  · rintro ⟨count, more, hReaches⟩
    have hLoaded : Reaches host count ((Activity.program p).load state [] 0) world
        ⟨.take q, seen, waiting, more⟩ now := hReaches
    rcases hLoaded.visits_or_after with
      ⟨above, rfl, hVisits⟩ | ⟨value, left, cost, next, less, _, _, hOnward⟩
    · simpa using hVisits
    · obtain ⟨⟨⟩, _⟩ := hOnward.of_finish rfl
  · intro hVisits
    obtain ⟨count, more, hReaches⟩ := reaches_of_visits hVisits [] 0
    rw [List.append_nil] at hReaches
    exact ⟨count, more, hReaches⟩

end Machine

end Backtrack
