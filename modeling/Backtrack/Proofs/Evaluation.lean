import Backtrack.Proofs.Drive

/-! The recursive semantics of programs. A primitive effect costs one step. A generator-backed program
costs one step and those of every program that its generator yields; each of these is evaluated from the
state that the one before it left, its value is sent back, and what the generator returns is the value of
the whole. A machine, whatever lies on its stack, runs a program to the same end. -/

namespace Backtrack

variable {κ τ ω : Type} {lacking : Bool}

/-- What is evaluated: a program that is taken up, or a generator that is sent a value. -/
inductive Activity (κ τ : Type) where
  | program (p : Program κ)
  | generator (frame : Frame κ τ) (sent : Value κ)

/-- How an evaluation ends. An exception closes the generators that it leaves on its way. One that is
raised by such closing takes its place, and closes no more generators. -/
inductive Ending (κ : Type) where
  | returned (value state : Value κ) (cost : Nat)
  | raised (exception : Raised κ)
  | replaced (exception : Raised κ)

def Ending.after (spent : Nat) : Ending κ → Ending κ
  | returned value state cost => returned value state (spent + cost)
  | raised exception => raised exception
  | replaced exception => replaced exception

@[simp] theorem Ending.after_after (first second : Nat) (ending : Ending κ) :
    (ending.after second).after first = ending.after (first + second) := by
  cases ending with
  | returned value state cost => simp only [after, Nat.add_assoc]
  | raised exception => rfl
  | replaced exception => rfl

/-- A program or generator evaluates from a state and a world to an ending and the world it leaves. -/
inductive Evaluates (host : Host κ τ ω lacking) :
    Activity κ τ → Value κ → World ω → Ending κ → World ω → Prop where
  | pure {value state world} :
      Evaluates host (.program (.pure value)) state world (.returned value state 1) world
  | get {state world} :
      Evaluates host (.program .get) state world (.returned state state 1) world
  | put {replacement state world} :
      Evaluates host (.program (.put replacement)) state world
        (.returned .null replacement 1) world
  | modify {f state changed world final} :
      host.applyMapper f state world = .ok changed final →
      Evaluates host (.program (.modify f)) state world (.returned .null changed 1) final
  | modifyRaised {f state world exception final} :
      host.applyMapper f state world = .error (.raised exception) final →
      Evaluates host (.program (.modify f)) state world (.raised exception) final
  | foreign {mark state world} :
      Evaluates host (.program (.foreign mark)) state world
        (.raised (.fault .unknownProgram)) world
  | foreignEffect {mark state world} :
      Evaluates host (.program (.foreignEffect mark)) state world
        (.raised (.fault .unknownEffect)) world
  | generator {mark r state world ending final} :
      Evaluates host (.generator (.fresh r) .null) state world ending final →
      Evaluates host (.program (.generator mark r)) state world (ending.after 1) final
  | returned {frame sent value state world final} :
      frame.resume host sent world = .ok (.returned value) final →
      Evaluates host (.generator frame sent) state world (.returned value state 0) final
  | resumeRaised {frame sent state world exception final} :
      frame.resume host sent world = .error (.raised exception) final →
      Evaluates host (.generator frame sent) state world (.raised exception) final
  | yielded {frame rest : Frame κ τ} {p sent value state middle world start next cost ending final} :
      frame.resume host sent world = .ok (.yielded (.program p) rest) start →
      Evaluates host (.program p) state start (.returned value middle cost) next →
      Evaluates host (.generator rest value) middle next ending final →
      Evaluates host (.generator frame sent) state world (ending.after cost) final
  | yieldedRaised {frame rest : Frame κ τ} {p sent state world start exception next final} :
      frame.resume host sent world = .ok (.yielded (.program p) rest) start →
      Evaluates host (.program p) state start (.raised exception) next →
      rest.close host next = .ok () final →
      Evaluates host (.generator frame sent) state world (.raised exception) final
  | yieldedReplacing {frame rest : Frame κ τ}
      {p sent state world start exception next other final} :
      frame.resume host sent world = .ok (.yielded (.program p) rest) start →
      Evaluates host (.program p) state start (.raised exception) next →
      rest.close host next = .error (.raised other) final →
      Evaluates host (.generator frame sent) state world (.replaced other) final
  | yieldedReplaced {frame rest : Frame κ τ} {p sent state world start exception final} :
      frame.resume host sent world = .ok (.yielded (.program p) rest) start →
      Evaluates host (.program p) state start (.replaced exception) final →
      Evaluates host (.generator frame sent) state world (.replaced exception) final
  | stray {frame rest : Frame κ τ} {sent value state world next final} :
      frame.resume host sent world = .ok (.yielded value rest) next →
      (∀ p, value ≠ .program p) → rest.close host next = .ok () final →
      Evaluates host (.generator frame sent) state world
        (.raised (.fault (.yieldedNonProgram value.typeName))) final
  | strayRaised {frame rest : Frame κ τ} {sent value state world next exception final} :
      frame.resume host sent world = .ok (.yielded value rest) next →
      (∀ p, value ≠ .program p) → rest.close host next = .error (.raised exception) final →
      Evaluates host (.generator frame sent) state world (.raised exception) final

/-- The machine that is about to do what is evaluated, above a stack of suspended generators. -/
def Activity.load (state : Value κ) (stack : List (Frame κ τ)) (steps : Nat) :
    Activity κ τ → Machine κ τ
  | .program p => ⟨.take p, state, stack, steps⟩
  | .generator frame sent => ⟨.deliver sent, state, frame :: stack, steps⟩

/-- How a machine goes on after an ending, given the stack below and the steps that it had counted. -/
def Ending.proceed (host : Host κ τ ω lacking) (stack : List (Frame κ τ)) (steps fuel : Nat) :
    Ending κ → Exec κ ω (Finished κ)
  | .returned value state cost =>
      (⟨.deliver value, state, stack, steps + cost⟩ : Machine κ τ).drive host fuel
  | .raised exception => Machine.unwind host stack exception
  | .replaced exception => Exec.raise exception

theorem Ending.proceed_after (host : Host κ τ ω lacking) (stack : List (Frame κ τ))
    (steps spent fuel : Nat) (ending : Ending κ) :
    (ending.after spent).proceed host stack steps fuel =
      ending.proceed host stack (steps + spent) fuel := by
  cases ending with
  | returned value state cost => simp only [after, proceed, Nat.add_assoc]
  | raised exception => rfl
  | replaced exception => rfl

namespace Evaluates

open Machine

variable {host : Host κ τ ω lacking} {activity : Activity κ τ} {state : Value κ}
  {world final : World ω} {ending : Ending κ}

/-- Evaluation is a run of the machine over any stack. -/
theorem drive (hEvaluates : Evaluates host activity state world ending final)
    (stack : List (Frame κ τ)) (steps : Nat) :
    ∃ used, ∀ fuel, (activity.load state stack steps).drive host (fuel + used) world =
      ending.proceed host stack steps fuel final := by
  -- A program that a generator yields is evaluated above what is left of that, so the stack is arbitrary.
  induction hEvaluates generalizing stack steps with
  | pure => exact ⟨1, fun fuel => drive_of_step rfl fuel⟩
  | get => exact ⟨1, fun fuel => drive_of_step rfl fuel⟩
  | put => exact ⟨1, fun fuel => drive_of_step rfl fuel⟩
  | modify hApplied => exact ⟨1, fun fuel => drive_of_step (step_modify_of_ok hApplied) fuel⟩
  | modifyRaised hFailed =>
      exact ⟨1, fun fuel => drive_of_raise (step_modify_of_error hFailed) fuel⟩
  | foreign => exact ⟨1, fun fuel => drive_of_raise rfl fuel⟩
  | foreignEffect => exact ⟨1, fun fuel => drive_of_raise rfl fuel⟩
  | generator _ ih =>
      obtain ⟨used, hRuns⟩ := ih stack (steps + 1)
      refine ⟨used + 1, fun fuel => ?_⟩
      rw [Ending.proceed_after, ← hRuns fuel]
      exact drive_of_step rfl (fuel + used)
  | returned hResumed => exact ⟨1, fun fuel => drive_of_step (step_of_returned hResumed) fuel⟩
  | resumeRaised hFailed =>
      exact ⟨1, fun fuel => drive_of_raise (step_of_resume_error hFailed) fuel⟩
  | @yielded _ rest _ _ _ _ _ _ _ _ cost _ _ hResumed _ _ ihProgram ihRest =>
      obtain ⟨first, hRunsProgram⟩ := ihProgram (rest :: stack) steps
      obtain ⟨second, hRunsRest⟩ := ihRest stack (steps + cost)
      refine ⟨second + first + 1, fun fuel => ?_⟩
      rw [Ending.proceed_after, ← hRunsRest fuel]
      refine (drive_of_step (step_of_yielded hResumed) (fuel + (second + first))).trans ?_
      rw [← Nat.add_assoc]
      exact hRunsProgram (fuel + second)
  | @yieldedRaised _ rest _ _ _ _ _ exception _ _ hResumed _ hClosed ih =>
      obtain ⟨used, hRuns⟩ := ih (rest :: stack) steps
      refine ⟨used + 1, fun fuel => ?_⟩
      refine (drive_of_step (step_of_yielded hResumed) (fuel + used)).trans ?_
      exact (hRuns fuel).trans (unwind_cons_of_ok hClosed stack exception)
  | @yieldedReplacing _ rest _ _ _ _ _ exception _ _ _ hResumed _ hFailed ih =>
      obtain ⟨used, hRuns⟩ := ih (rest :: stack) steps
      refine ⟨used + 1, fun fuel => ?_⟩
      refine (drive_of_step (step_of_yielded hResumed) (fuel + used)).trans ?_
      exact (hRuns fuel).trans (unwind_cons_of_error hFailed stack exception)
  | @yieldedReplaced _ rest _ _ _ _ _ _ _ hResumed _ ih =>
      obtain ⟨used, hRuns⟩ := ih (rest :: stack) steps
      refine ⟨used + 1, fun fuel => ?_⟩
      exact (drive_of_step (step_of_yielded hResumed) (fuel + used)).trans (hRuns fuel)
  | stray hResumed hStray hClosed =>
      exact ⟨1, fun fuel => drive_of_raise (step_of_stray_closed hResumed hStray hClosed) fuel⟩
  | strayRaised hResumed hStray hFailed =>
      exact ⟨1, fun fuel => drive_of_raise (step_of_stray_halted hResumed hStray hFailed) fuel⟩

end Evaluates

/-- The machine with the activity loaded passes through an evaluation of it. -/
def Activity.PassesThrough (host : Host κ τ ω lacking) (fuel : Nat) (activity : Activity κ τ)
    (state : Value κ) (stack : List (Frame κ τ)) (steps : Nat) (world : World ω) : Prop :=
  ∃ ending final less, less < fuel ∧ Evaluates host activity state world ending final ∧
    (activity.load state stack steps).drive host fuel world =
      ending.proceed host stack steps less final

/-- So does every activity whose machine ends within the fuel. -/
def PassThroughWithin (host : Host κ τ ω lacking) (fuel : Nat) : Prop :=
  ∀ fewer, fewer ≤ fuel → ∀ (activity : Activity κ τ) state stack steps world,
    Machine.EndsWithin host fewer (activity.load state stack steps) world →
      activity.PassesThrough host fewer state stack steps world

section Completeness

open Machine

variable {host : Host κ τ ω lacking} {state sent : Value κ} {frame rest : Frame κ τ}
  {stack : List (Frame κ τ)} {steps fuel : Nat} {world start : World ω}

theorem passesThrough_program {p : Program κ} (ih : PassThroughWithin host fuel)
    (hEnds : EndsWithin host (fuel + 1) ((Activity.program p).load state stack steps) world) :
    (Activity.program p).PassesThrough host (fuel + 1) state stack steps world := by
  have hLess : fuel < fuel + 1 := Nat.lt_succ_self fuel
  cases p with
  | pure value => exact ⟨_, world, fuel, hLess, .pure, drive_of_step rfl fuel⟩
  | get => exact ⟨_, world, fuel, hLess, .get, drive_of_step rfl fuel⟩
  | put replacement => exact ⟨_, world, fuel, hLess, .put, drive_of_step rfl fuel⟩
  | modify f =>
      cases hApplied : host.applyMapper f state world with
      | ok changed final =>
          exact ⟨_, final, fuel, hLess, .modify hApplied,
            drive_of_step (step_modify_of_ok hApplied) fuel⟩
      | error halt final =>
          cases halt with
          | raised exception =>
              exact ⟨_, final, fuel, hLess, .modifyRaised hApplied,
                drive_of_raise (step_modify_of_error hApplied) fuel⟩
          | exhausted =>
              exact absurd (drive_of_exhausted (step_modify_of_error hApplied) fuel) (hEnds final)
  | generator mark r =>
      have hBegun : ((Activity.program (.generator mark r)).load state stack steps).drive host
            (fuel + 1) world =
          ((Activity.generator (.fresh r) .null).load state stack (steps + 1)).drive host fuel
            world := drive_of_step rfl fuel
      obtain ⟨ending, final, fewer, hBound, hEvaluates, hRuns⟩ :=
        ih fuel (Nat.le_refl fuel) _ _ _ _ _ (hEnds.of_eq hBegun)
      refine ⟨ending.after 1, final, fewer, by omega, .generator hEvaluates, ?_⟩
      rw [Ending.proceed_after]
      exact hBegun.trans hRuns
  | foreign mark => exact ⟨_, world, fuel, hLess, .foreign, drive_of_raise rfl fuel⟩
  | foreignEffect mark => exact ⟨_, world, fuel, hLess, .foreignEffect, drive_of_raise rfl fuel⟩

theorem passesThrough_yielded {p : Program κ} (ih : PassThroughWithin host fuel)
    (hResumed : frame.resume host sent world = .ok (.yielded (.program p) rest) start)
    (hEnds : EndsWithin host (fuel + 1)
      ((Activity.generator frame sent).load state stack steps) world) :
    (Activity.generator frame sent).PassesThrough host (fuel + 1) state stack steps world := by
  have hYielded : ((Activity.generator frame sent).load state stack steps).drive host
        (fuel + 1) world =
      ((Activity.program p).load state (rest :: stack) steps).drive host fuel start :=
    drive_of_step (step_of_yielded hResumed) fuel
  obtain ⟨ending, next, fewer, hBound, hEvaluates, hRuns⟩ :=
    ih fuel (Nat.le_refl fuel) _ _ _ _ _ (hEnds.of_eq hYielded)
  have hReached := hYielded.trans hRuns
  cases ending with
  | returned value middle cost =>
      obtain ⟨ending, final, fewest, hTighter, hContinues, hRunsRest⟩ :=
        ih fewer (by omega) (.generator rest value) middle stack (steps + cost) next
          (hEnds.of_eq hReached)
      refine ⟨ending.after cost, final, fewest, by omega,
        .yielded hResumed hEvaluates hContinues, ?_⟩
      rw [Ending.proceed_after]
      exact hReached.trans hRunsRest
  | raised exception =>
      cases hClosed : rest.close host next with
      | ok _ final =>
          exact ⟨_, final, fewer, by omega, .yieldedRaised hResumed hEvaluates hClosed,
            hReached.trans (unwind_cons_of_ok hClosed stack exception)⟩
      | error halt final =>
          have hHalted := hReached.trans (unwind_cons_of_error hClosed stack exception)
          cases halt with
          | raised other =>
              exact ⟨_, final, fewer, by omega,
                .yieldedReplacing hResumed hEvaluates hClosed, hHalted⟩
          | exhausted => exact absurd hHalted (hEnds final)
  | replaced exception =>
      exact ⟨_, next, fewer, by omega, .yieldedReplaced hResumed hEvaluates, hReached⟩

theorem passesThrough_stray {value : Value κ}
    (hResumed : frame.resume host sent world = .ok (.yielded value rest) start)
    (hStray : ∀ p, value ≠ .program p)
    (hEnds : EndsWithin host (fuel + 1)
      ((Activity.generator frame sent).load state stack steps) world) :
    (Activity.generator frame sent).PassesThrough host (fuel + 1) state stack steps world := by
  have hLess : fuel < fuel + 1 := Nat.lt_succ_self fuel
  cases hClosed : rest.close host start with
  | ok _ final =>
      exact ⟨_, final, fuel, hLess, .stray hResumed hStray hClosed,
        drive_of_raise (step_of_stray_closed hResumed hStray hClosed) fuel⟩
  | error halt final =>
      have hHalted : ((Activity.generator frame sent).load state stack steps).step host world =
          .error halt final := step_of_stray_halted hResumed hStray hClosed
      cases halt with
      | raised exception =>
          exact ⟨_, final, fuel, hLess, .strayRaised hResumed hStray hClosed,
            drive_of_raise hHalted fuel⟩
      | exhausted => exact absurd (drive_of_exhausted hHalted fuel) (hEnds final)

theorem passesThrough_generator (ih : PassThroughWithin host fuel)
    (hEnds : EndsWithin host (fuel + 1)
      ((Activity.generator frame sent).load state stack steps) world) :
    (Activity.generator frame sent).PassesThrough host (fuel + 1) state stack steps world := by
  have hLess : fuel < fuel + 1 := Nat.lt_succ_self fuel
  cases hResumed : frame.resume host sent world with
  | ok result start =>
      cases result with
      | returned value =>
          exact ⟨_, start, fuel, hLess, .returned hResumed,
            drive_of_step (step_of_returned hResumed) fuel⟩
      | yielded value rest =>
          by_cases hProgram : ∃ p, value = .program p
          · obtain ⟨p, rfl⟩ := hProgram
            exact passesThrough_yielded ih hResumed hEnds
          · exact passesThrough_stray hResumed (fun p hSame => hProgram ⟨p, hSame⟩) hEnds
  | error halt start =>
      cases halt with
      | raised exception =>
          exact ⟨_, start, fuel, hLess, .resumeRaised hResumed,
            drive_of_raise (step_of_resume_error hResumed) fuel⟩
      | exhausted =>
          exact absurd (drive_of_exhausted (step_of_resume_error hResumed) fuel) (hEnds start)

/-- Every run of a machine that comes to its end passes through an evaluation of what it is about to do. -/
theorem passThroughWithin (host : Host κ τ ω lacking) (fuel : Nat) : PassThroughWithin host fuel := by
  -- What is left of a generator runs on the fuel that its program left, hence all smaller fuels at once.
  induction fuel with
  | zero =>
      intro fewer hBound activity state stack steps world hEnds
      obtain rfl : fewer = 0 := by omega
      exact absurd hEnds not_endsWithin_zero
  | succ fuel ih =>
      intro fewer hBound activity state stack steps world hEnds
      rcases Nat.le_succ_iff.mp hBound with hSmaller | rfl
      · exact ih fewer hSmaller activity state stack steps world hEnds
      · cases activity with
        | program p => exact passesThrough_program ih hEnds
        | generator frame sent => exact passesThrough_generator ih hEnds

end Completeness

/-- How a run of a program ends: with its value, its final state and the number of its steps, or with an
exception. -/
inductive Outcome (κ : Type) where
  | returned (value state : Value κ) (steps : Nat)
  | raised (exception : Raised κ)

def Ending.outcome : Ending κ → Outcome κ
  | returned value state cost => .returned value state cost
  | raised exception => .raised exception
  | replaced exception => .raised exception

def Outcome.after (spent : Nat) : Outcome κ → Outcome κ
  | returned value state steps => returned value state (spent + steps)
  | raised exception => raised exception

@[simp] theorem Ending.outcome_after (spent : Nat) (ending : Ending κ) :
    (ending.after spent).outcome = ending.outcome.after spent := by
  cases ending <;> rfl

/-- What a run gives that comes to the outcome in the world: a return notes the number of steps. -/
def Outcome.report : Outcome κ → World ω → EStateM.Result (Halt κ) (World ω) (Value κ × Value κ)
  | returned value state steps, world =>
      .ok (value, state) (world.noted (.programFinished steps))
  | raised exception, world => .error (.raised exception) world

theorem Outcome.report_inj {first second : Outcome κ} {world other : World ω}
    (hSame : first.report world = second.report other) : first = second ∧ world = other := by
  cases first with
  | returned value state steps =>
      cases second with
      | returned =>
          simp only [report, EStateM.Result.ok.injEq, Prod.mk.injEq, World.noted_inj,
            Note.programFinished.injEq] at hSame
          obtain ⟨⟨rfl, rfl⟩, rfl, rfl⟩ := hSame
          exact ⟨rfl, rfl⟩
      | raised => cases hSame
  | raised exception =>
      cases second with
      | returned => cases hSame
      | raised =>
          cases hSame
          exact ⟨rfl, rfl⟩

namespace Program

open Machine

variable {host : Host κ τ ω lacking} {p : Program κ} {state : Value κ} {world final : World ω}
  {ending : Ending κ} {outcome : Outcome κ}

theorem run_of_drive_ok {fuel : Nat} {finished : Finished κ}
    (hDriven : (Machine.start p state).drive host fuel world = .ok finished final) :
    p.run host fuel state world =
      .ok (finished.value, finished.state) (final.noted (.programFinished finished.steps)) :=
  Exec.bind_of_ok hDriven

theorem run_of_drive_error {fuel : Nat} {halt : Halt κ}
    (hDriven : (Machine.start p state).drive host fuel world = .error halt final) :
    p.run host fuel state world = .error halt final :=
  Exec.bind_of_error hDriven

theorem reaches_of_run {fuel : Nat} {value after : Value κ}
    (hRuns : p.run host fuel state world = .ok (value, after) final) :
    ∃ count steps last, Reaches host count (Machine.start p state) world
      ⟨.deliver value, after, [], steps⟩ last := by
  obtain ⟨finished, last, hDriven, hEnded⟩ := Exec.bind_eq_ok.mp hRuns
  obtain ⟨count, hReaches⟩ := reaches_of_drive hDriven
  obtain ⟨_, _, _, hReported⟩ := Exec.bind_eq_ok.mp hEnded
  cases hReported
  exact ⟨count, finished.steps, last, hReaches⟩

theorem run_of_drive_proceed {fuel : Nat} (less : Nat)
    (hDriven : (Machine.start p state).drive host fuel world =
      ending.proceed host [] 0 (less + 1) final) :
    p.run host fuel state world = ending.outcome.report final := by
  cases ending with
  | returned value after cost =>
      have hFinished := hDriven.trans (drive_of_finish rfl less)
      rw [Nat.zero_add] at hFinished
      exact run_of_drive_ok hFinished
  | raised exception => exact run_of_drive_error hDriven
  | replaced exception => exact run_of_drive_error hDriven

theorem run_of_evaluates (hEvaluates : Evaluates host (.program p) state world ending final) :
    ∃ enough, ∀ fuel, p.run host (fuel + enough) state world = ending.outcome.report final := by
  obtain ⟨used, hRuns⟩ := hEvaluates.drive [] 0
  refine ⟨used + 1, fun fuel => run_of_drive_proceed fuel ?_⟩
  rw [Nat.add_comm used, ← Nat.add_assoc]
  exact hRuns (fuel + 1)

theorem endsWithin_of_run {fuel : Nat}
    (hEnds : ∀ after, p.run host fuel state world ≠ .error .exhausted after) :
    EndsWithin host fuel (Machine.start p state) world :=
  fun after hExhausted => hEnds after (run_of_drive_error hExhausted)

theorem exists_evaluates_of_run {fuel : Nat}
    (hEnds : ∀ after, p.run host fuel state world ≠ .error .exhausted after) :
    ∃ ending final, Evaluates host (.program p) state world ending final ∧
      p.run host fuel state world = ending.outcome.report final := by
  obtain ⟨ending, final, less, _, hEvaluates, hRuns⟩ :=
    passThroughWithin host fuel fuel (Nat.le_refl fuel) (.program p) state [] 0 world
      (endsWithin_of_run hEnds)
  cases less with
  | zero =>
      cases ending with
      | returned value after cost => exact absurd (run_of_drive_error hRuns) (hEnds final)
      | raised exception => exact ⟨_, final, hEvaluates, run_of_drive_error hRuns⟩
      | replaced exception => exact ⟨_, final, hEvaluates, run_of_drive_error hRuns⟩
  | succ less => exact ⟨ending, final, hEvaluates, run_of_drive_proceed less hRuns⟩

theorem run_add {fuel : Nat}
    (hEnds : ∀ after, p.run host fuel state world ≠ .error .exhausted after) (more : Nat) :
    p.run host (fuel + more) state world = p.run host fuel state world := by
  have hSame := (endsWithin_of_run hEnds).drive_add more
  cases hDriven : (Machine.start p state).drive host fuel world with
  | ok finished final => rw [run_of_drive_ok (hSame.trans hDriven), run_of_drive_ok hDriven]
  | error halt final => rw [run_of_drive_error (hSame.trans hDriven), run_of_drive_error hDriven]

/-- The program runs from the state to the outcome, in the world before the return is noted. -/
def Runs (host : Host κ τ ω lacking) (p : Program κ) (state : Value κ) (world : World ω)
    (outcome : Outcome κ) (final : World ω) : Prop :=
  ∃ fuel, p.run host fuel state world = outcome.report final

theorem ends_of_reported {fuel : Nat}
    (hRuns : p.run host fuel state world = outcome.report final) (after : World ω) :
    p.run host fuel state world ≠ .error .exhausted after := by
  intro hExhausted
  rw [hRuns] at hExhausted
  cases outcome <;> cases hExhausted

theorem Runs.unique {other : Outcome κ} {last : World ω}
    (hRuns : p.Runs host state world outcome final) (hAgain : p.Runs host state world other last) :
    outcome = other ∧ final = last := by
  obtain ⟨fuel, hRuns⟩ := hRuns
  obtain ⟨more, hAgain⟩ := hAgain
  apply Outcome.report_inj
  calc outcome.report final
      = p.run host (fuel + more) state world := by rw [run_add (ends_of_reported hRuns), hRuns]
    _ = p.run host (more + fuel) state world := by rw [Nat.add_comm]
    _ = other.report last := by rw [run_add (ends_of_reported hAgain), hAgain]

theorem runs_iff_exists_evaluates :
    p.Runs host state world outcome final ↔
      ∃ ending, Evaluates host (.program p) state world ending final ∧
        ending.outcome = outcome := by
  constructor
  · intro hGiven
    obtain ⟨fuel, hRuns⟩ := hGiven
    obtain ⟨ending, last, hEvaluates, hReported⟩ := exists_evaluates_of_run (ends_of_reported hRuns)
    obtain ⟨rfl, rfl⟩ := Outcome.report_inj (hRuns.symm.trans hReported)
    exact ⟨ending, hEvaluates, rfl⟩
  · intro hGiven
    obtain ⟨ending, hEvaluates, rfl⟩ := hGiven
    obtain ⟨enough, hRuns⟩ := run_of_evaluates hEvaluates
    exact ⟨0 + enough, hRuns 0⟩

theorem Runs.evaluates {value left : Value κ} {steps : Nat}
    (hRuns : p.Runs host state world (.returned value left steps) final) :
    Evaluates host (.program p) state world (.returned value left steps) final := by
  obtain ⟨ending, hEvaluates, hEnded⟩ := runs_iff_exists_evaluates.mp hRuns
  cases ending with
  | raised | replaced => cases hEnded
  | returned =>
      cases hEnded
      exact hEvaluates

/-- The machine runs a program to exactly what the recursive semantics gives: the same value and state
after noting as many steps as it costs, or the same exception; and a run that ends is the same whatever
more fuel it has. -/
theorem run_iff_evaluates (host : Host κ τ ω lacking) (p : Program κ) (state : Value κ)
    (world : World ω) :
    (∀ value final after,
      (∃ fuel, p.run host fuel state world = .ok (value, final) after) ↔
        ∃ cost left, Evaluates host (.program p) state world (.returned value final cost) left ∧
          after = left.noted (.programFinished cost)) ∧
    (∀ exception after,
      (∃ fuel, p.run host fuel state world = .error (.raised exception) after) ↔
        Evaluates host (.program p) state world (.raised exception) after ∨
          Evaluates host (.program p) state world (.replaced exception) after) ∧
    (∀ fuel more, (∀ after, p.run host fuel state world ≠ .error .exhausted after) →
      p.run host (fuel + more) state world = p.run host fuel state world) := by
  refine ⟨fun value final after => ⟨?_, ?_⟩, fun exception after => ⟨?_, ?_⟩,
    fun fuel more hEnds => run_add hEnds more⟩
  · intro hGiven
    obtain ⟨fuel, hRuns⟩ := hGiven
    obtain ⟨ending, left, hEvaluates, hReported⟩ :=
      exists_evaluates_of_run (fun after hExhausted => by rw [hRuns] at hExhausted; cases hExhausted)
    rw [hRuns] at hReported
    cases ending with
    | returned value final cost =>
        cases hReported
        exact ⟨cost, left, hEvaluates, rfl⟩
    | raised exception => cases hReported
    | replaced exception => cases hReported
  · intro hGiven
    obtain ⟨cost, left, hEvaluates, rfl⟩ := hGiven
    exact runs_iff_exists_evaluates.mpr ⟨_, hEvaluates, rfl⟩
  · intro hRuns
    obtain ⟨ending, hEvaluates, hSame⟩ :=
      runs_iff_exists_evaluates.mp (show p.Runs host state world (.raised exception) after
        from hRuns)
    cases ending with
    | returned value final cost => cases hSame
    | raised exception =>
        cases hSame
        exact .inl hEvaluates
    | replaced exception =>
        cases hSame
        exact .inr hEvaluates
  · intro hGiven
    rcases hGiven with hEvaluates | hEvaluates
    · exact runs_iff_exists_evaluates.mpr ⟨_, hEvaluates, rfl⟩
    · exact runs_iff_exists_evaluates.mpr ⟨_, hEvaluates, rfl⟩

end Program

end Backtrack
