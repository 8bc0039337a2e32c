import Backtrack.Proofs.Inversion
import Backtrack.Proofs.Nesting
import Backtrack.Alternative.Run

namespace Backtrack

variable {κ τ ω : Type}

namespace Value

inductive IsResult : Value κ → Prop where
  | success (value : Value κ) : IsResult (.ok value)
  | failure (value : Value κ) (children : List (Value κ)) :
      IsResult (.err (.tree value children))

inductive IsStatePair : Value κ → Prop where
  | mk (user : Value κ) (flag : Bool) : IsStatePair (.pair user (.bool flag))

end Value

/-- Started from any state pair, the alternative returns a result and leaves a state pair, if it returns. -/
def Alternative.WellBehaved (host : Host κ τ ω) (a : Alternative κ) : Prop :=
  ∀ user flag world value state steps final,
    a.program.Runs host (.pair user (.bool flag)) world (.returned value state steps) final →
      value.IsResult ∧ state.IsStatePair

def Host.codeless : Host Empty Empty Unit where
  debug := false
  call := nofun
  start := nofun
  spawn := nofun
  resume := nofun
  close := nofun

theorem Host.shortRepr_of_had {lacking : Bool} {host : Host κ τ ω lacking} {value : Value κ}
    (hLiteral : host.literal value = .had) :
    host.shortRepr value = pure (value.shortRepr Frame.noteLimit) := by
  simp only [Host.shortRepr, hLiteral, Literal.shown]

theorem Host.literal_eq_had (host : Host κ τ ω) (value : Value κ) : host.literal value = .had := by
  cases host.literal value
  rfl

/-- The world after a failure is noted, which is done in debugging only. -/
def Host.noting {lacking : Bool} (host : Host κ τ ω lacking) (entry : String → Note) (failure : Value κ)
    (world : World ω) : World ω :=
  if host.debug then world.noted (entry (failure.shortRepr Frame.noteLimit)) else world

/-- The outcome of a right operand after the left one failed with a tree: its failure becomes the last
child of that tree. -/
def Outcome.joinedTo (value : Value κ) (children : List (Value κ)) : Outcome κ → Outcome κ
  | .returned (.err failure) state steps =>
      .returned (.err (.tree value (children ++ [failure]))) state steps
  | other => other

/-- How an alternation that began in the state ends, once its left operand has come to an outcome and left
the world. -/
inductive Alternative.Resolves (host : Host κ τ ω) (second : Alternative κ) (state : Value κ) :
    Outcome κ → World ω → Outcome κ → World ω → Prop where
  | succeeded {value left : Value κ} {steps : Nat} {world : World ω} :
      Resolves host second state
        (.returned (.ok value) left steps) world (.returned (.ok value) left (steps + 2)) world
  | aborted {failure user : Value κ} {steps : Nat} {world : World ω} :
      Resolves host second state
        (.returned (.err failure) (.pair user (.bool true)) steps) world
        (.returned (.err failure) (.pair user (.bool true)) (steps + 3))
        (host.noting .alternationSkipped failure world)
  | retried {value user : Value κ} {children : List (Value κ)} {steps : Nat}
      {world final : World ω} {outcome : Outcome κ} :
      second.program.Runs host state
        (host.noting .backtracked (.tree value children) world) outcome final →
      Resolves host second state
        (.returned (.err (.tree value children)) (.pair user (.bool false)) steps) world
        ((outcome.joinedTo value children).after (steps + 4)) final
  | raised {exception : Raised κ} {world : World ω} :
      Resolves host second state (.raised exception) world (.raised exception) world

namespace Frame

theorem noteFailure_of_had {lacking : Bool} {host : Host κ τ ω lacking} {failure : Value κ}
    (hShows : host.debug = true → host.literal failure = .had) (entry : String → Note)
    (world : World ω) :
    noteFailure host entry (.err failure) world = .ok () (host.noting entry failure world) := by
  unfold noteFailure Host.noting
  split
  · rename_i hDebug
    have hShown : (host.shortRepr failure).sealed world =
        .ok (failure.shortRepr Frame.noteLimit) world := by
      rw [Host.shortRepr_of_had (hShows hDebug)]
      rfl
    exact Exec.bind_of_ok hShown
  · rfl

theorem noteFailure_err (host : Host κ τ ω) (entry : String → Note) (failure : Value κ)
    (world : World ω) :
    noteFailure host entry (.err failure) world = .ok () (host.noting entry failure world) :=
  noteFailure_of_had (fun _ => host.literal_eq_had failure) entry world

section Noting

variable {lacking : Bool} (host : Host κ τ ω lacking) (second : Program κ)
  (snapshot left user : Value κ)

theorem resume_altFlag_true :
    (altFlag second snapshot left : Frame κ τ).resume host (.pair user (.bool true)) =
      noteFailure host .alternationSkipped left >>= fun _ => finish left :=
  rfl

theorem resume_altFlag_false :
    (altFlag second snapshot left : Frame κ τ).resume host (.pair user (.bool false)) =
      noteFailure host .backtracked left >>= fun _ =>
        yieldProgram (.put snapshot) (.altRestored second left) :=
  rfl

end Noting

variable (host : Host κ τ ω) (second : Program κ) (snapshot failure user : Value κ)
  (world : World ω)

theorem resume_altFlag_set :
    (altFlag second snapshot (.err failure) : Frame κ τ).resume host
        (.pair user (.bool true)) world =
      .ok (.returned (.err failure)) (host.noting .alternationSkipped failure world) :=
  Exec.bind_of_ok (noteFailure_err host .alternationSkipped failure world)

theorem resume_altFlag_clear :
    (altFlag second snapshot (.err failure) : Frame κ τ).resume host
        (.pair user (.bool false)) world =
      .ok (.yielded (.program (.put snapshot)) (.altRestored second (.err failure)))
        (host.noting .backtracked failure world) :=
  Exec.bind_of_ok (noteFailure_err host .backtracked failure world)

end Frame

theorem Machine.Reaches.of_step_of_bottom {host : Host κ τ ω} {count : Nat}
    {m next last : Machine κ τ} {world after final : World ω} {frame : Frame κ τ}
    (hReaches : Machine.Reaches host count m world last final)
    (hStepped : m.step host world = .ok (.inl next) after)
    (hBottom : last.stack.getLast? = some frame) (hDifferent : m.stack.getLast? ≠ some frame) :
    ∃ less, Machine.Reaches host less next after last final := by
  refine hReaches.of_step_of_ne hStepped fun hSame => ?_
  rw [hSame] at hBottom
  exact hDifferent hBottom

namespace Evaluates

variable {host : Host κ τ ω} {first second : Program κ} {state snapshot value user : Value κ}
  {world final : World ω} {ending : Ending κ}

theorem altOr_iff {mark : Mark} :
    Evaluates host (.program (.generator mark (.altOr first second))) state world ending final ↔
      ∃ left next inner, Evaluates host (.program first) state world left next ∧
        Follows host (.altLeft second state) left next inner final ∧ ending = inner.after 2 := by
  rw [generator_iff]
  constructor
  · intro hGiven
    obtain ⟨outer, hBegun, rfl⟩ := hGiven
    obtain ⟨inner, hKept, rfl⟩ := (yielded_get_iff rfl).mp hBegun
    obtain ⟨left, next, hEvaluates, hFollows⟩ := (yielded_iff rfl).mp hKept
    exact ⟨left, next, inner, hEvaluates, hFollows, Ending.after_after 1 1 inner⟩
  · intro hGiven
    obtain ⟨left, next, inner, hEvaluates, hFollows, rfl⟩ := hGiven
    refine ⟨inner.after 1, ?_, (Ending.after_after 1 1 inner).symm⟩
    exact (yielded_get_iff rfl).mpr ⟨inner, (yielded_iff rfl).mpr ⟨left, next, hEvaluates, hFollows⟩, rfl⟩

theorem altLeft_ok_iff :
    Evaluates host (.generator (.altLeft second snapshot) (.ok value)) state world ending final ↔
      ending = .returned (.ok value) state 0 ∧ final = world :=
  returned_iff rfl

theorem altLeft_set_iff :
    Evaluates host (.generator (.altLeft second snapshot) (.err value))
        (.pair user (.bool true)) world ending final ↔
      ending = .returned (.err value) (.pair user (.bool true)) 1 ∧
        final = host.noting .alternationSkipped value world := by
  rw [yielded_get_iff rfl]
  constructor
  · intro hGiven
    obtain ⟨inner, hEvaluates, rfl⟩ := hGiven
    obtain ⟨rfl, rfl⟩ :=
      (returned_iff (Frame.resume_altFlag_set host second snapshot value user world)).mp hEvaluates
    exact ⟨rfl, rfl⟩
  · intro hGiven
    obtain ⟨rfl, rfl⟩ := hGiven
    exact ⟨_, .returned (Frame.resume_altFlag_set host second snapshot value user world), rfl⟩

theorem altLeft_clear_iff :
    Evaluates host (.generator (.altLeft second snapshot) (.err value))
        (.pair user (.bool false)) world ending final ↔
      ∃ right next inner, Evaluates host (.program second) snapshot
          (host.noting .backtracked value world) right next ∧
        Follows host (.altRight (.err value)) right next inner final ∧
        ending = inner.after 2 := by
  rw [yielded_get_iff rfl]
  constructor
  · intro hGiven
    obtain ⟨outer, hFlagged, rfl⟩ := hGiven
    obtain ⟨inner, hRestored, rfl⟩ :=
      (yielded_put_iff
        (Frame.resume_altFlag_clear host second snapshot value user world)).mp hFlagged
    obtain ⟨right, next, hEvaluates, hFollows⟩ := (yielded_iff rfl).mp hRestored
    exact ⟨right, next, inner, hEvaluates, hFollows, Ending.after_after 1 1 inner⟩
  · intro hGiven
    obtain ⟨right, next, inner, hEvaluates, hFollows, rfl⟩ := hGiven
    refine ⟨inner.after 1, ?_, (Ending.after_after 1 1 inner).symm⟩
    exact (yielded_put_iff
      (Frame.resume_altFlag_clear host second snapshot value user world)).mpr
        ⟨inner, (yielded_iff rfl).mpr ⟨right, next, hEvaluates, hFollows⟩, rfl⟩

theorem altRight_ok_iff {left : Value κ} :
    Evaluates host (.generator (.altRight left) (.ok value)) state world ending final ↔
      ending = .returned (.ok value) state 0 ∧ final = world :=
  returned_iff rfl

theorem altRight_err_iff {children grandchildren : List (Value κ)} {other : Value κ} :
    Evaluates host
        (.generator (.altRight (.err (.tree value children))) (.err (.tree other grandchildren)))
        state world ending final ↔
      ending = .returned (.err (.tree value (children ++ [.tree other grandchildren]))) state 0 ∧
        final = world :=
  returned_iff rfl

end Evaluates

def Ending.joinedTo (value : Value κ) (children : List (Value κ)) : Ending κ → Ending κ
  | .returned (.err failure) state cost =>
      .returned (.err (.tree value (children ++ [failure]))) state cost
  | other => other

theorem Ending.outcome_joinedTo (value : Value κ) (children : List (Value κ)) (ending : Ending κ) :
    (ending.joinedTo value children).outcome = ending.outcome.joinedTo value children := by
  unfold joinedTo
  split
  · rfl
  · rename_i hOther
    cases ending with
    | returned result state cost =>
        cases result with
        | err failure => exact absurd rfl (hOther failure state cost)
        | _ => rfl
    | raised exception => rfl
    | replaced exception => rfl

theorem Ending.exists_outcome_iff {Ends : Ending κ → Prop} {only : Ending κ} {condition : Prop}
    {spent : Nat} {outcome : Outcome κ} (hEnds : ∀ ending, Ends ending ↔ ending = only ∧ condition) :
    (∃ ending, Ends ending ∧ (ending.after spent).outcome = outcome) ↔
      outcome = (only.after spent).outcome ∧ condition := by
  constructor
  · intro hGiven
    obtain ⟨ending, hEnded, rfl⟩ := hGiven
    obtain ⟨rfl, hHolds⟩ := (hEnds ending).mp hEnded
    exact ⟨rfl, hHolds⟩
  · intro hGiven
    obtain ⟨rfl, hHolds⟩ := hGiven
    exact ⟨only, (hEnds only).mpr ⟨rfl, hHolds⟩, rfl⟩

/-- An ending that returns, returns a result and a state pair. -/
def Ending.Settled : Ending κ → Prop
  | .returned value state _ => value.IsResult ∧ state.IsStatePair
  | _ => True

namespace Alternative

variable {host : Host κ τ ω} {first second : Alternative κ} {user value : Value κ}
  {children : List (Value κ)} {flag : Bool} {world next final : World ω} {ending : Ending κ}
  {outcome : Outcome κ}

theorem WellBehaved.settled (hBehaved : first.WellBehaved host)
    (hEvaluates : Evaluates host (.program first.program) (.pair user (.bool flag)) world
      ending final) : ending.Settled := by
  cases ending with
  | returned value state cost =>
      exact hBehaved user flag world value state cost final
        (Program.runs_iff_exists_evaluates.mpr ⟨_, hEvaluates, rfl⟩)
  | raised exception => trivial
  | replaced exception => trivial

theorem follows_altRight_iff {inner : Ending κ} (hSettled : ending.Settled) :
    Follows host (.altRight (.err (.tree value children))) ending next inner final ↔
      inner = ending.joinedTo value children ∧ final = next := by
  cases ending with
  | returned result state cost =>
      rw [Follows.returned_iff]
      cases hSettled.1 with
      | success result =>
          constructor
          · intro hGiven
            obtain ⟨_, hEvaluates, rfl⟩ := hGiven
            obtain ⟨rfl, rfl⟩ := Evaluates.altRight_ok_iff.mp hEvaluates
            exact ⟨rfl, rfl⟩
          · intro hGiven
            obtain ⟨rfl, rfl⟩ := hGiven
            exact ⟨_, Evaluates.altRight_ok_iff.mpr ⟨rfl, rfl⟩, rfl⟩
      | failure other grandchildren =>
          constructor
          · intro hGiven
            obtain ⟨_, hEvaluates, rfl⟩ := hGiven
            obtain ⟨rfl, rfl⟩ := Evaluates.altRight_err_iff.mp hEvaluates
            exact ⟨rfl, rfl⟩
          · intro hGiven
            obtain ⟨rfl, rfl⟩ := hGiven
            exact ⟨_, Evaluates.altRight_err_iff.mpr ⟨rfl, rfl⟩, rfl⟩
  | raised exception => exact Follows.raised_iff fun _ => rfl
  | replaced exception => exact Follows.replaced_iff

variable {state : Value κ} {cost : Nat}

theorem resolves_succeeded_iff :
    Resolves host second state (.returned (.ok value) user cost) world outcome final ↔
      outcome = .returned (.ok value) user (cost + 2) ∧ final = world := by
  constructor
  · intro hResolves
    cases hResolves
    exact ⟨rfl, rfl⟩
  · intro hGiven
    obtain ⟨rfl, rfl⟩ := hGiven
    exact .succeeded

theorem resolves_aborted_iff :
    Resolves host second state (.returned (.err value) (.pair user (.bool true)) cost) world
        outcome final ↔
      outcome = .returned (.err value) (.pair user (.bool true)) (cost + 3) ∧
        final = host.noting .alternationSkipped value world := by
  constructor
  · intro hResolves
    cases hResolves
    exact ⟨rfl, rfl⟩
  · intro hGiven
    obtain ⟨rfl, rfl⟩ := hGiven
    exact .aborted

theorem resolves_retried_iff :
    Resolves host second state
        (.returned (.err (.tree value children)) (.pair user (.bool false)) cost) world
        outcome final ↔
      ∃ right, second.program.Runs host state
          (host.noting .backtracked (.tree value children) world) right final ∧
        outcome = (right.joinedTo value children).after (cost + 4) := by
  constructor
  · intro hResolves
    cases hResolves with
    | retried hRuns => exact ⟨_, hRuns, rfl⟩
  · intro hGiven
    obtain ⟨right, hRuns, rfl⟩ := hGiven
    exact .retried hRuns

theorem resolves_raised_iff {exception : Raised κ} :
    Resolves host second state (.raised exception) world outcome final ↔
      outcome = .raised exception ∧ final = world := by
  constructor
  · intro hResolves
    cases hResolves
    exact ⟨rfl, rfl⟩
  · intro hGiven
    obtain ⟨rfl, rfl⟩ := hGiven
    exact .raised

theorem exists_follows_returned_iff {rest : Frame κ τ} {result : Value κ} (spent : Nat) :
    (∃ inner, Follows host rest (.returned result state cost) next inner final ∧
        (inner.after spent).outcome = outcome) ↔
      ∃ inner, Evaluates host (.generator rest result) state next inner final ∧
        (inner.after (spent + cost)).outcome = outcome := by
  constructor
  · intro hGiven
    obtain ⟨_, hFollows, hEnded⟩ := hGiven
    obtain ⟨inner, hEvaluates, rfl⟩ := Follows.returned_iff.mp hFollows
    rw [Ending.after_after] at hEnded
    exact ⟨inner, hEvaluates, hEnded⟩
  · intro hGiven
    obtain ⟨inner, hEvaluates, hEnded⟩ := hGiven
    rw [← Ending.after_after] at hEnded
    exact ⟨_, Follows.returned_iff.mpr ⟨inner, hEvaluates, rfl⟩, hEnded⟩

theorem exists_retried_iff (hBehaved : second.WellBehaved host) {left : Value κ} :
    (∃ inner, Evaluates host
        (.generator (.altLeft second.program (.pair user (.bool flag))) (.err (.tree value children)))
        (.pair left (.bool false)) next inner final ∧ (inner.after (2 + cost)).outcome = outcome) ↔
      ∃ right, second.program.Runs host (.pair user (.bool flag))
          (host.noting .backtracked (.tree value children) next) right final ∧
        outcome = (right.joinedTo value children).after (cost + 4) := by
  have hSpent : 2 + cost + 2 = cost + 4 := by omega
  constructor
  · intro hGiven
    obtain ⟨_, hEvaluates, rfl⟩ := hGiven
    obtain ⟨right, last, inner, hRuns, hFollows, rfl⟩ := Evaluates.altLeft_clear_iff.mp hEvaluates
    obtain ⟨rfl, rfl⟩ := (follows_altRight_iff (hBehaved.settled hRuns)).mp hFollows
    refine ⟨right.outcome, Program.runs_iff_exists_evaluates.mpr ⟨right, hRuns, rfl⟩, ?_⟩
    rw [Ending.after_after, Ending.outcome_after, Ending.outcome_joinedTo, hSpent]
  · intro hGiven
    obtain ⟨_, hRuns, rfl⟩ := hGiven
    obtain ⟨right, hEvaluates, rfl⟩ := Program.runs_iff_exists_evaluates.mp hRuns
    have hFollows : Follows host (.altRight (.err (.tree value children))) right final
        (right.joinedTo value children) final :=
      (follows_altRight_iff (hBehaved.settled hEvaluates)).mpr ⟨rfl, rfl⟩
    refine ⟨_, Evaluates.altLeft_clear_iff.mpr ⟨right, final, _, hEvaluates, hFollows, rfl⟩, ?_⟩
    rw [Ending.after_after, Ending.outcome_after, Ending.outcome_joinedTo, hSpent]

theorem exists_follows_altLeft_iff (hBehaved : second.WellBehaved host)
    (hSettled : ending.Settled) :
    (∃ inner, Follows host (.altLeft second.program (.pair user (.bool flag))) ending next inner
        final ∧ (inner.after 2).outcome = outcome) ↔
      Resolves host second (.pair user (.bool flag)) ending.outcome next outcome final := by
  cases ending with
  | returned result state cost =>
      rw [exists_follows_returned_iff, Ending.outcome]
      obtain ⟨hResult, hPair⟩ := hSettled
      -- The right operand is in the last case only, the one of a failure with the flag clear.
      cases hResult with
      | success result =>
          rw [resolves_succeeded_iff, Ending.exists_outcome_iff fun _ => Evaluates.altLeft_ok_iff]
          simp only [Ending.after, Ending.outcome, Nat.add_zero, Nat.add_comm 2 cost]
      | failure other grandchildren =>
          obtain ⟨left, set⟩ := hPair
          cases set with
          | true =>
              have hSpent : 2 + cost + 1 = cost + 3 := by omega
              rw [resolves_aborted_iff, Ending.exists_outcome_iff fun _ => Evaluates.altLeft_set_iff]
              simp only [Ending.after, Ending.outcome, hSpent]
          | false =>
              rw [resolves_retried_iff]
              exact exists_retried_iff hBehaved
  | raised exception =>
      have hIdle : ∀ world, (Frame.altLeft second.program (.pair user (.bool flag)) :
          Frame κ τ).close host world = .ok () world := fun _ => rfl
      rw [Ending.outcome, resolves_raised_iff,
        Ending.exists_outcome_iff fun _ => Follows.raised_iff hIdle]
      rfl
  | replaced exception =>
      rw [Ending.outcome, resolves_raised_iff,
        Ending.exists_outcome_iff fun _ => Follows.replaced_iff]
      rfl

theorem altOr_runs_iff (hFirstBehaved : first.WellBehaved host)
    (hSecondBehaved : second.WellBehaved host) :
    (altOr first second).program.Runs host (.pair user (.bool flag)) world outcome final ↔
      ∃ left next, first.program.Runs host (.pair user (.bool flag)) world left next ∧
        Resolves host second (.pair user (.bool flag)) left next outcome final := by
  constructor
  · intro hRuns
    obtain ⟨_, hEvaluates, hEnded⟩ := Program.runs_iff_exists_evaluates.mp hRuns
    obtain ⟨left, next, inner, hLeftEvaluates, hFollows, rfl⟩ := Evaluates.altOr_iff.mp hEvaluates
    have hSettled := hFirstBehaved.settled hLeftEvaluates
    exact ⟨left.outcome, next, Program.runs_iff_exists_evaluates.mpr ⟨left, hLeftEvaluates, rfl⟩,
      (exists_follows_altLeft_iff hSecondBehaved hSettled).mp ⟨inner, hFollows, hEnded⟩⟩
  · intro hGiven
    obtain ⟨_, next, hRuns, hResolves⟩ := hGiven
    obtain ⟨left, hEvaluates, rfl⟩ := Program.runs_iff_exists_evaluates.mp hRuns
    have hSettled := hFirstBehaved.settled hEvaluates
    obtain ⟨inner, hFollows, hEnded⟩ :=
      (exists_follows_altLeft_iff hSecondBehaved hSettled).mpr hResolves
    exact Program.runs_iff_exists_evaluates.mpr
      ⟨_, Evaluates.altOr_iff.mpr ⟨left, next, inner, hEvaluates, hFollows, rfl⟩, hEnded⟩

section Start

open Machine

variable {pair left failure : Value κ} {q : Program κ} {m : Machine κ τ} {count steps : Nat}

theorem reaches_altLeft
    (hReaches : Reaches host count (Machine.start (altOr first second).program pair) world m final)
    (hBottom : m.stack.getLast? = some (.altRight failure)) :
    ∃ less, Reaches host less ((Activity.program first.program).load pair
      [.altLeft second.program pair] 2) world m final := by
  obtain ⟨_, hBegun⟩ := hReaches.of_step_of_bottom rfl hBottom nofun
  obtain ⟨_, hAsked⟩ := hBegun.of_step_of_bottom rfl hBottom nofun
  obtain ⟨_, hTold⟩ := hAsked.of_step_of_bottom rfl hBottom nofun
  exact hTold.of_step_of_bottom rfl hBottom nofun

/-- From the value of a left operand the machine comes to a right operand by a failure with the flag
clear only, and by way of the pair that was kept. -/
theorem reaches_altRight (hResult : value.IsResult) (hPair : left.IsStatePair)
    (hReaches : Reaches host count
      ⟨.deliver value, left, [.altLeft second.program pair], steps⟩ world m final)
    (hBottom : m.stack.getLast? = some (.altRight failure)) :
    ∃ reason children user less, value = .err (.tree reason children) ∧
      left = .pair user (.bool false) ∧
      Reaches host less ((Activity.program second.program).load pair [.altRight value] (steps + 2))
        (host.noting .backtracked (.tree reason children) world) m final := by
  cases hResult with
  | success result =>
      obtain ⟨_, hDone⟩ := hReaches.of_step_of_bottom rfl hBottom nofun
      obtain ⟨rfl, rfl⟩ := hDone.of_finish rfl
      cases hBottom
  | failure reason children =>
      obtain ⟨user, set⟩ := hPair
      obtain ⟨_, hAsked⟩ := hReaches.of_step_of_bottom rfl hBottom nofun
      obtain ⟨_, hTold⟩ := hAsked.of_step_of_bottom rfl hBottom nofun
      cases set with
      | true =>
          obtain ⟨_, hDone⟩ := hTold.of_step_of_bottom
            (step_of_returned (Frame.resume_altFlag_set host _ _ _ _ _)) hBottom nofun
          obtain ⟨rfl, rfl⟩ := hDone.of_finish rfl
          cases hBottom
      | false =>
          obtain ⟨_, hRestored⟩ := hTold.of_step_of_bottom
            (step_of_yielded (Frame.resume_altFlag_clear host _ _ _ _ _)) hBottom nofun
          obtain ⟨_, hReady⟩ := hRestored.of_step_of_bottom rfl hBottom nofun
          obtain ⟨_, hStarted⟩ := hReady.of_step_of_bottom rfl hBottom nofun
          exact ⟨reason, children, user, _, rfl, rfl, hStarted⟩

/-- While the generator waits for its right operand, that is being run or has just come to its value. -/
theorem taken_under_altRight (hBehaved : second.WellBehaved host)
    (hReaches : Reaches host count
      ((Activity.program second.program).load (.pair user (.bool flag))
        [.altRight (.err (.tree value children))] steps) world m final)
    (hBottom : m.stack.getLast? = some (.altRight failure)) :
    failure = .err (.tree value children) ∧
      ∀ q, m.mode = .take q → m.stack = [.altRight failure] →
        q = second.program ∧ m.state = .pair user (.bool flag) ∧ final = world := by
  rcases hReaches.cases_of_load with
    ⟨rfl, rfl⟩ | ⟨top, inner, hAbove⟩ | ⟨result, last, cost, next, less, _, hEvaluates, hOnward⟩
  · cases hBottom
    refine ⟨rfl, fun q hTaken hAlone => ?_⟩
    cases hTaken
    exact ⟨rfl, rfl, rfl⟩
  · rw [hAbove, ← List.cons_append, List.getLast?_concat] at hBottom
    cases hBottom
    refine ⟨rfl, fun q hTaken hAlone => ?_⟩
    rw [hAbove] at hAlone
    simp at hAlone
  · by_cases hArrives : m = ⟨.deliver result, last, [.altRight (.err (.tree value children))],
      steps + cost⟩
    · subst hArrives
      cases hBottom
      refine ⟨rfl, fun q hTaken hAlone => ?_⟩
      cases hTaken
    · cases (hBehaved.settled hEvaluates).1 with
      | success result | failure reason grandchildren =>
          obtain ⟨_, hDone⟩ := hOnward.of_step_of_ne rfl hArrives
          obtain ⟨rfl, rfl⟩ := hDone.of_finish rfl
          cases hBottom

theorem altOr_reaches_right (hFirstBehaved : first.WellBehaved host)
    (hSecondBehaved : second.WellBehaved host)
    (hReaches : Reaches host count
      (Machine.start (altOr first second).program (.pair user (.bool flag))) world m final)
    (hBottom : m.stack.getLast? = some (.altRight failure)) :
    ∃ value children left cost next, failure = .err (.tree value children) ∧
      first.program.Runs host (.pair user (.bool flag)) world
        (.returned failure (.pair left (.bool false)) cost) next ∧
      ∀ q, m.mode = .take q → m.stack = [.altRight failure] →
        q = second.program ∧ m.state = .pair user (.bool flag) ∧
          final = host.noting .backtracked (.tree value children) next := by
  obtain ⟨_, hTaken⟩ := reaches_altLeft hReaches hBottom
  rcases hTaken.cases_of_load with
    ⟨rfl, rfl⟩ | ⟨top, inner, hAbove⟩ | ⟨result, last, cost, next, less, _, hEvaluates, hOnward⟩
  · cases hBottom
  · rw [hAbove, ← List.cons_append, List.getLast?_concat] at hBottom
    cases hBottom
  · obtain ⟨hResult, hPair⟩ := hFirstBehaved.settled hEvaluates
    obtain ⟨value, children, left, _, rfl, rfl, hStarted⟩ :=
      reaches_altRight hResult hPair hOnward hBottom
    obtain ⟨rfl, hUnder⟩ := taken_under_altRight hSecondBehaved hStarted hBottom
    exact ⟨value, children, left, cost, next, rfl,
      Program.runs_iff_exists_evaluates.mpr ⟨_, hEvaluates, rfl⟩, hUnder⟩

end Start

theorem inject_wellBehaved (host : Host κ τ ω) (value : Value κ) :
    (inject value).WellBehaved host := by
  intro user flag world result state steps final hRuns
  obtain ⟨⟨⟩, rfl⟩ := Program.pure_runs_iff.mp hRuns
  exact ⟨.success value, .mk user flag⟩

theorem error_wellBehaved (host : Host κ τ ω) (reason : Value κ) :
    (error reason).WellBehaved host := by
  intro user flag world result state steps final hRuns
  obtain ⟨⟨⟩, rfl⟩ := error_runs_iff.mp hRuns
  exact ⟨.failure reason [], .mk user flag⟩

/-- Alternation backtracks: its right operand is run from the pair in which the left one began, whatever
the left one did to that, and only after a failure with the abort flag clear. -/
theorem altOr_backtracks (hFirstBehaved : first.WellBehaved host)
    (hSecondBehaved : second.WellBehaved host) (user : Value κ) (flag : Bool) (world : World ω) :
    (∀ outcome final,
      (altOr first second).program.Runs host (.pair user (.bool flag)) world outcome final ↔
        ∃ left next, first.program.Runs host (.pair user (.bool flag)) world left next ∧
          Resolves host second (.pair user (.bool flag)) left next outcome final) ∧
    (∀ count m final failure,
      Machine.Reaches host count
        (Machine.start (altOr first second).program (.pair user (.bool flag))) world m final →
      m.stack.getLast? = some (.altRight failure) →
        ∃ value children left cost next, failure = .err (.tree value children) ∧
          first.program.Runs host (.pair user (.bool flag)) world
            (.returned failure (.pair left (.bool false)) cost) next ∧
          ∀ q, m.mode = .take q → m.stack = [.altRight failure] →
            q = second.program ∧ m.state = .pair user (.bool flag) ∧
              final = host.noting .backtracked (.tree value children) next) :=
  ⟨fun _ _ => altOr_runs_iff hFirstBehaved hSecondBehaved,
    fun _ _ _ _ hReaches hBottom => altOr_reaches_right hFirstBehaved hSecondBehaved hReaches hBottom⟩

theorem altOr_backtracks_over_error :
    (altOr (error (.str "a")) (inject (.str "b"))).program.Runs Host.codeless
        (.pair (.int 0) (.bool false)) ⟨(), #[], 0⟩
        (.returned (.ok (.str "b")) (.pair (.int 0) (.bool false)) 7) ⟨(), #[], 0⟩ ∧
      ∃ value children left cost next,
        (Value.err (.tree (.str "a") []) : Value Empty) = .err (.tree value children) ∧
          (error (.str "a")).program.Runs Host.codeless (.pair (.int 0) (.bool false)) ⟨(), #[], 0⟩
            (.returned (.err (.tree value children)) (.pair left (.bool false)) cost) next := by
  obtain ⟨hResolves, hReaches⟩ :=
    altOr_backtracks (error_wellBehaved Host.codeless (.str "a"))
      (inject_wellBehaved Host.codeless (.str "b")) (.int 0) false ⟨(), #[], 0⟩
  have hLeft : (error (.str "a")).program.Runs Host.codeless (.pair (.int 0) (.bool false))
      ⟨(), #[], 0⟩
      (.returned (.err (.tree (.str "a") [])) (.pair (.int 0) (.bool false)) 2) ⟨(), #[], 0⟩ :=
    ⟨5, rfl⟩
  have hRight : (inject (.str "b")).program.Runs Host.codeless (.pair (.int 0) (.bool false))
      ⟨(), #[], 0⟩
      (.returned (.ok (.str "b")) (.pair (.int 0) (.bool false)) 1) ⟨(), #[], 0⟩ :=
    ⟨3, rfl⟩
  refine ⟨(hResolves _ _).mpr ⟨_, _, hLeft, .retried hRight⟩, ?_⟩
  have hOnward : Machine.Reaches Host.codeless 13
      (Machine.start (altOr (error (.str "a")) (inject (.str "b"))).program
        (.pair (.int 0) (.bool false))) ⟨(), #[], 0⟩
      ⟨.take (inject (.str "b")).program, .pair (.int 0) (.bool false),
        [.altRight (.err (.tree (.str "a") []))], 6⟩ ⟨(), #[], 0⟩ :=
    Machine.reaches_of_advance rfl
  obtain ⟨value, children, user, cost, next, hSame, hRuns, _⟩ :=
    hReaches _ _ _ (.err (.tree (.str "a") [])) hOnward rfl
  cases hSame
  exact ⟨_, _, user, cost, next, rfl, hRuns⟩

end Alternative

end Backtrack
