import Backtrack.Proofs.Evaluation

/-! What a run does while a program is evaluated: the generators below stay as they are until the value of
the program reaches them. -/

namespace Backtrack

variable {κ τ ω : Type}

namespace Machine

variable {host : Host κ τ ω}

/-- A machine that comes from a loaded activity is at its start, still has a generator above the stack
that was there, or comes from the value that the activity evaluates to. -/
theorem Reaches.cases_of_load {count : Nat} {activity : Activity κ τ} {state : Value κ}
    {stack : List (Frame κ τ)} {steps : Nat} {world final : World ω} {m : Machine κ τ}
    (hReaches : Reaches host count (activity.load state stack steps) world m final) :
    (m = activity.load state stack steps ∧ final = world) ∨
    (∃ top inner, m.stack = top :: (inner ++ stack)) ∨
    (∃ value left cost next less, less < count ∧
      Evaluates host activity state world (.returned value left cost) next ∧
      Reaches host less ⟨.deliver value, left, stack, steps + cost⟩ next m final) := by
  -- A yielded program and what is left of its generator take fewer steps each than the two together.
  induction count using Nat.strongRecOn generalizing activity state stack steps world with
  | ind count ih =>
  cases hReaches with
  | here => exact .inl ⟨rfl, rfl⟩
  | @step less _ next _ _ after _ hStepped hRest =>
  refine .inr ?_
  have hShorter : less < less + 1 := Nat.lt_succ_self less
  cases activity with
  | program p =>
      cases p with
      | pure value =>
          cases hStepped
          exact .inr ⟨_, _, _, _, less, hShorter, .pure, hRest⟩
      | get =>
          cases hStepped
          exact .inr ⟨_, _, _, _, less, hShorter, .get, hRest⟩
      | put replacement =>
          cases hStepped
          exact .inr ⟨_, _, _, _, less, hShorter, .put, hRest⟩
      | modify f =>
          obtain ⟨changed, hApplied, ⟨⟩⟩ := step_modify_cases hStepped
          exact .inr ⟨_, _, _, _, less, hShorter, .modify hApplied, hRest⟩
      | generator mark r =>
          cases hStepped
          have hBegun : Reaches host less
              ((Activity.generator (.fresh r) .null).load state stack (steps + 1)) world m final :=
            hRest
          rcases ih less hShorter hBegun with
            ⟨rfl, _⟩ | hInside | ⟨value, left, cost, last, fewer, hBound, hEvaluates, hOnward⟩
          · exact .inl ⟨.fresh r, [], rfl⟩
          · exact .inl hInside
          · refine .inr ⟨value, left, 1 + cost, last, fewer, by omega, .generator hEvaluates, ?_⟩
            rw [← Nat.add_assoc]
            exact hOnward
      | foreign mark => cases hStepped
      | foreignEffect mark => cases hStepped
  | generator frame sent =>
      rcases step_deliver_cases hStepped with
        ⟨value, hResumed, ⟨⟩⟩ | ⟨p, suspended, hResumed, ⟨⟩⟩
      · exact .inr ⟨_, _, _, _, less, hShorter, .returned hResumed, hRest⟩
      have hTaken : Reaches host less ((Activity.program p).load state (suspended :: stack) steps)
          after m final := hRest
      rcases ih less hShorter hTaken with
        ⟨rfl, _⟩ | ⟨top, inner, hInside⟩ |
          ⟨value, left, cost, last, fewer, hBound, hEvaluates, hOnward⟩
      · exact .inl ⟨suspended, [], rfl⟩
      · exact .inl ⟨top, inner ++ [suspended], by simpa using hInside⟩
      have hResumes : Reaches host fewer
          ((Activity.generator suspended value).load left stack (steps + cost)) last m final :=
        hOnward
      rcases ih fewer (by omega) hResumes with
        ⟨rfl, _⟩ | hInside | ⟨result, ended, more, last, fewest, hTighter, hContinues, hOnward⟩
      · exact .inl ⟨suspended, [], rfl⟩
      · exact .inl hInside
      · refine .inr ⟨result, ended, cost + more, last, fewest, by omega,
          .yielded hResumed hEvaluates hContinues, ?_⟩
        rw [← Nat.add_assoc]
        exact hOnward

end Machine

end Backtrack
