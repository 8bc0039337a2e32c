import Backtrack.Program.Machine
import Backtrack.Proofs.Exec

namespace Backtrack

variable {κ τ ω : Type} {lacking : Bool}

namespace Machine

def unwind (host : Host κ τ ω lacking) (frames : List (Frame κ τ)) (exception : Raised κ) :
    Exec κ ω (Finished κ) := do
  closeAll host frames
  Exec.raise exception

variable {host : Host κ τ ω lacking} {m next : Machine κ τ} {world after : World ω}

theorem unwind_of_ok {frames : List (Frame κ τ)} (hClosed : closeAll host frames world = .ok () after)
    (exception : Raised κ) :
    unwind host frames exception world = .error (.raised exception) after :=
  Exec.bind_of_ok hClosed

theorem unwind_of_error {frames : List (Frame κ τ)} {halt : Halt κ}
    (hFailed : closeAll host frames world = .error halt after) (exception : Raised κ) :
    unwind host frames exception world = .error halt after :=
  Exec.bind_of_error hFailed

theorem unwind_cons_of_ok {frame : Frame κ τ} (hClosed : frame.close host world = .ok () after)
    (rest : List (Frame κ τ)) (exception : Raised κ) :
    unwind host (frame :: rest) exception world = unwind host rest exception after := by
  have hClosing : closeAll host (frame :: rest) world = closeAll host rest after :=
    Exec.bind_of_ok hClosed
  cases hEnded : closeAll host rest after with
  | ok _ final => rw [unwind_of_ok (hClosing.trans hEnded), unwind_of_ok hEnded]
  | error halt final => rw [unwind_of_error (hClosing.trans hEnded), unwind_of_error hEnded]

theorem unwind_cons_of_error {frame : Frame κ τ} {halt : Halt κ}
    (hFailed : frame.close host world = .error halt after)
    (rest : List (Frame κ τ)) (exception : Raised κ) :
    unwind host (frame :: rest) exception world = .error halt after :=
  unwind_of_error (Exec.bind_of_error hFailed) exception

theorem stepOrUnwind_of_ok {result : Machine κ τ ⊕ Finished κ}
    (hStepped : m.step host world = .ok result after) :
    m.stepOrUnwind host world = .ok result after :=
  Exec.tryCatch_of_ok hStepped

theorem drive_of_step (hStepped : m.step host world = .ok (.inl next) after) (fuel : Nat) :
    m.drive host (fuel + 1) world = next.drive host fuel after :=
  Exec.bind_of_ok (stepOrUnwind_of_ok hStepped)

theorem drive_of_finish {finished : Finished κ}
    (hStepped : m.step host world = .ok (.inr finished) after) (fuel : Nat) :
    m.drive host (fuel + 1) world = .ok finished after :=
  Exec.bind_of_ok (stepOrUnwind_of_ok hStepped)

theorem drive_of_raise {exception : Raised κ}
    (hStepped : m.step host world = .error (.raised exception) after) (fuel : Nat) :
    m.drive host (fuel + 1) world = unwind host m.suspended exception after := by
  cases hEnded : closeAll host m.suspended after with
  | ok _ final =>
      have hUnwound : m.stepOrUnwind host world = .error (.raised exception) final :=
        (Exec.tryCatch_of_error hStepped).trans (Exec.bind_of_ok hEnded)
      rw [unwind_of_ok hEnded]
      exact Exec.bind_of_error hUnwound
  | error halt final =>
      have hUnwound : m.stepOrUnwind host world = .error halt final :=
        (Exec.tryCatch_of_error hStepped).trans (Exec.bind_of_error hEnded)
      rw [unwind_of_error hEnded]
      exact Exec.bind_of_error hUnwound

theorem drive_of_exhausted (hStepped : m.step host world = .error .exhausted after) (fuel : Nat) :
    m.drive host (fuel + 1) world = .error .exhausted after :=
  Exec.bind_of_error (Exec.tryCatch_of_error hStepped)

theorem drive_succ_cases {fuel : Nat} {finished : Finished κ}
    (hDriven : m.drive host (fuel + 1) world = .ok finished after) :
    (∃ next middle, m.step host world = .ok (.inl next) middle ∧
      next.drive host fuel middle = .ok finished after) ∨
      m.step host world = .ok (.inr finished) after := by
  cases hStepped : m.step host world with
  | ok result middle =>
      cases result with
      | inl next =>
          rw [drive_of_step hStepped] at hDriven
          exact .inl ⟨next, middle, rfl, hDriven⟩
      | inr ended =>
          rw [drive_of_finish hStepped] at hDriven
          cases hDriven
          exact .inr rfl
  | error halt middle =>
      cases halt with
      | raised exception =>
          rw [drive_of_raise hStepped] at hDriven
          obtain ⟨_, _, _, hRaised⟩ := Exec.bind_eq_ok.mp hDriven
          cases hRaised
      | exhausted =>
          rw [drive_of_exhausted hStepped] at hDriven
          cases hDriven

/-- The machine comes to its end before its fuel and that of its host do. -/
def EndsWithin (host : Host κ τ ω lacking) (fuel : Nat) (m : Machine κ τ) (world : World ω) : Prop :=
  ∀ final, m.drive host fuel world ≠ .error .exhausted final

theorem not_endsWithin_zero : ¬ EndsWithin host 0 m world := fun hEnds => hEnds world rfl

theorem EndsWithin.of_eq {fuel less : Nat} (hEnds : EndsWithin host fuel m world)
    (hSame : m.drive host fuel world = next.drive host less after) :
    EndsWithin host less next after :=
  fun final hExhausted => hEnds final (hSame.trans hExhausted)

theorem EndsWithin.drive_add {fuel : Nat} (hEnds : EndsWithin host fuel m world) (more : Nat) :
    m.drive host (fuel + more) world = m.drive host fuel world := by
  induction fuel generalizing m world with
  | zero => exact absurd hEnds not_endsWithin_zero
  | succ fuel ih =>
      rw [Nat.succ_add]
      cases hStepped : m.step host world with
      | ok result after =>
          cases result with
          | inl next =>
              have hRest := hEnds.of_eq (drive_of_step hStepped fuel)
              rw [drive_of_step hStepped, drive_of_step hStepped, ih hRest]
          | inr finished => rw [drive_of_finish hStepped, drive_of_finish hStepped]
      | error halt after =>
          cases halt with
          | raised exception => rw [drive_of_raise hStepped, drive_of_raise hStepped]
          | exhausted => rw [drive_of_exhausted hStepped, drive_of_exhausted hStepped]

theorem EndsWithin.add {fuel : Nat} (hEnds : EndsWithin host fuel m world) (more : Nat) :
    EndsWithin host (fuel + more) m world :=
  hEnds.of_eq (hEnds.drive_add more).symm

section Closing

variable (hCloses : ∀ t world final, host.close t world ≠ .error .exhausted final)
include hCloses

theorem closeAll_ne_exhausted (frames : List (Frame κ τ)) (world final : World ω) :
    closeAll host frames world ≠ .error .exhausted final := by
  intro hExhausted
  induction frames generalizing world with
  | nil => cases hExhausted
  | cons frame rest ih =>
      obtain hFirst | ⟨_, _, _, hOthers⟩ := Exec.bind_eq_error.mp hExhausted
      · cases frame with
        | task t | body name t => exact hCloses t world final (Exec.sealed_eq_exhausted.mp hFirst)
        | _ => cases hFirst
      · exact ih _ hOthers

theorem unwind_ne_exhausted (frames : List (Frame κ τ)) (exception : Raised κ)
    (world final : World ω) : unwind host frames exception world ≠ .error .exhausted final := by
  intro hExhausted
  obtain hClosing | ⟨_, _, _, hReraised⟩ := Exec.bind_eq_error.mp hExhausted
  · exact closeAll_ne_exhausted hCloses frames world final hClosing
  · cases hReraised

theorem endsWithin_of_raise {exception : Raised κ}
    (hFailed : m.step host world = .error (.raised exception) after) : EndsWithin host 1 m world := by
  intro final hExhausted
  rw [drive_of_raise hFailed] at hExhausted
  exact unwind_ne_exhausted hCloses _ _ _ _ hExhausted

end Closing

section Step

variable {state sent value : Value κ} {stack : List (Frame κ τ)} {steps : Nat}
  {frame rest : Frame κ τ} {f : Mapper κ} {halt : Halt κ}

theorem step_modify_of_ok (hApplied : host.applyMapper f state world = .ok value after) :
    (⟨.take (.modify f), state, stack, steps⟩ : Machine κ τ).step host world =
      .ok (.inl ⟨.deliver .null, value, stack, steps + 1⟩) after :=
  Exec.map_of_ok (Exec.bind_of_ok hApplied)

theorem step_modify_of_error (hFailed : host.applyMapper f state world = .error halt after) :
    (⟨.take (.modify f), state, stack, steps⟩ : Machine κ τ).step host world =
      .error halt after :=
  Exec.map_of_error (Exec.bind_of_error hFailed)

theorem step_of_returned (hResumed : frame.resume host sent world = .ok (.returned value) after) :
    (⟨.deliver sent, state, frame :: stack, steps⟩ : Machine κ τ).step host world =
      .ok (.inl ⟨.deliver value, state, stack, steps⟩) after :=
  Exec.map_of_ok (Exec.bind_of_ok hResumed)

theorem step_of_yielded {p : Program κ}
    (hResumed : frame.resume host sent world = .ok (.yielded (.program p) rest) after) :
    (⟨.deliver sent, state, frame :: stack, steps⟩ : Machine κ τ).step host world =
      .ok (.inl ⟨.take p, state, rest :: stack, steps⟩) after :=
  Exec.map_of_ok (Exec.bind_of_ok hResumed)

theorem step_of_resume_error (hFailed : frame.resume host sent world = .error halt after) :
    (⟨.deliver sent, state, frame :: stack, steps⟩ : Machine κ τ).step host world =
      .error halt after :=
  Exec.map_of_error (Exec.bind_of_error hFailed)

theorem deliver_of_stray (hResumed : frame.resume host sent world = .ok (.yielded value rest) after)
    (hStray : ∀ p, value ≠ .program p) :
    m.deliver host sent frame stack world =
      (rest.close host >>= fun _ => Exec.fail (.yieldedNonProgram value.typeName) :
        Exec κ ω (Machine κ τ)) after := by
  cases value with
  | program p => exact absurd rfl (hStray p)
  | _ => exact Exec.bind_of_ok hResumed

theorem step_of_stray_closed {final : World ω}
    (hResumed : frame.resume host sent world = .ok (.yielded value rest) after)
    (hStray : ∀ p, value ≠ .program p) (hClosed : rest.close host after = .ok () final) :
    (⟨.deliver sent, state, frame :: stack, steps⟩ : Machine κ τ).step host world =
      .error (.raised (.fault (.yieldedNonProgram value.typeName))) final :=
  Exec.map_of_error ((deliver_of_stray hResumed hStray).trans (Exec.bind_of_ok hClosed))

theorem step_of_stray_halted {final : World ω}
    (hResumed : frame.resume host sent world = .ok (.yielded value rest) after)
    (hStray : ∀ p, value ≠ .program p) (hFailed : rest.close host after = .error halt final) :
    (⟨.deliver sent, state, frame :: stack, steps⟩ : Machine κ τ).step host world =
      .error halt final :=
  Exec.map_of_error ((deliver_of_stray hResumed hStray).trans (Exec.bind_of_error hFailed))

theorem step_modify_cases {result : Machine κ τ ⊕ Finished κ}
    (hStepped : (⟨.take (.modify f), state, stack, steps⟩ : Machine κ τ).step host world =
      .ok result after) :
    ∃ value, host.applyMapper f state world = .ok value after ∧
      result = .inl ⟨.deliver .null, value, stack, steps + 1⟩ := by
  cases hApplied : host.applyMapper f state world with
  | ok value final =>
      rw [step_modify_of_ok hApplied] at hStepped
      cases hStepped
      exact ⟨value, rfl, rfl⟩
  | error halt final =>
      rw [step_modify_of_error hApplied] at hStepped
      cases hStepped

theorem step_take_mode {p : Program κ}
    (hStepped : (⟨.take p, state, stack, steps⟩ : Machine κ τ).step host world =
      .ok (.inl next) after) : ∃ value, next.mode = .deliver value := by
  cases p with
  | modify f =>
      obtain ⟨_, _, ⟨⟩⟩ := step_modify_cases hStepped
      exact ⟨.null, rfl⟩
  | pure value =>
      cases hStepped
      exact ⟨value, rfl⟩
  | get =>
      cases hStepped
      exact ⟨state, rfl⟩
  | put replacement | generator mark r =>
      cases hStepped
      exact ⟨.null, rfl⟩
  | foreign mark | foreignEffect mark => cases hStepped

theorem step_deliver_cases {result : Machine κ τ ⊕ Finished κ}
    (hStepped : (⟨.deliver sent, state, frame :: stack, steps⟩ : Machine κ τ).step host world =
      .ok result after) :
    (∃ value, frame.resume host sent world = .ok (.returned value) after ∧
      result = .inl ⟨.deliver value, state, stack, steps⟩) ∨
    (∃ p rest, frame.resume host sent world = .ok (.yielded (.program p) rest) after ∧
      result = .inl ⟨.take p, state, rest :: stack, steps⟩) := by
  cases hResumed : frame.resume host sent world with
  | error halt next =>
      rw [step_of_resume_error hResumed] at hStepped
      cases hStepped
  | ok done next =>
      cases done with
      | returned value =>
          rw [step_of_returned hResumed] at hStepped
          cases hStepped
          exact .inl ⟨value, rfl, rfl⟩
      | yielded value rest =>
          by_cases hProgram : ∃ p, value = .program p
          · obtain ⟨p, rfl⟩ := hProgram
            rw [step_of_yielded hResumed] at hStepped
            cases hStepped
            exact .inr ⟨p, rest, rfl, rfl⟩
          · have hStray : ∀ p, value ≠ .program p := fun p hSame => hProgram ⟨p, hSame⟩
            cases hClosed : rest.close host next with
            | ok _ final =>
                rw [step_of_stray_closed hResumed hStray hClosed] at hStepped
                cases hStepped
            | error halt final =>
                rw [step_of_stray_halted hResumed hStray hClosed] at hStepped
                cases hStepped

end Step

/-- The machine comes to another one in so many steps. -/
inductive Reaches (host : Host κ τ ω lacking) :
    Nat → Machine κ τ → World ω → Machine κ τ → World ω → Prop where
  | here (m : Machine κ τ) (world : World ω) : Reaches host 0 m world m world
  | step {count : Nat} {m next last : Machine κ τ} {world after final : World ω} :
      m.step host world = .ok (.inl next) after → Reaches host count next after last final →
      Reaches host (count + 1) m world last final

namespace Reaches

variable {last : Machine κ τ} {final : World ω} {count : Nat}

theorem drive (hReaches : Reaches host count m world last final) (fuel : Nat) :
    m.drive host (fuel + count) world = last.drive host fuel final := by
  induction hReaches with
  | here => rfl
  | step hStepped _ ih => rw [← Nat.add_assoc, drive_of_step hStepped, ih]

theorem drive_eq_ok {fuel : Nat} {finished : Finished κ}
    (hReaches : Reaches host count m world last final)
    (hDriven : m.drive host fuel world = .ok finished after) :
    last.drive host fuel final = .ok finished after := by
  have hEnds : EndsWithin host fuel m world := by
    intro _ hExhausted
    rw [hDriven] at hExhausted
    cases hExhausted
  rw [← hReaches.drive fuel, hEnds.drive_add, hDriven]

theorem endsWithin {fuel : Nat} (hReaches : Reaches host count m world last final)
    (hEnds : EndsWithin host fuel last final) : EndsWithin host (fuel + count) m world :=
  hEnds.of_eq (hReaches.drive fuel).symm

theorem trans {more : Nat} (hReaches : Reaches host count m world next after)
    (hRest : Reaches host more next after last final) :
    Reaches host (count + more) m world last final := by
  induction hReaches with
  | here =>
      rw [Nat.zero_add]
      exact hRest
  | step hStepped _ ih =>
      rw [Nat.succ_add]
      exact .step hStepped (ih hRest)

/-- What holds at the start and is kept by the steps of the run holds wherever the run comes to. -/
theorem invariant (Holds : Machine κ τ → World ω → Prop)
    (hKept : ∀ count next after last final, Reaches host count m world next after →
      next.step host after = .ok (.inl last) final → Holds next after → Holds last final)
    (hStart : Holds m world) (hReaches : Reaches host count m world last final) :
    Holds last final := by
  induction hReaches with
  | here => exact hStart
  | step hFirst _ ih =>
      refine ih (fun count next after last final hRest => ?_) ?_
      · exact hKept (count + 1) next after last final (.step hFirst hRest)
      · exact hKept 0 _ _ _ _ (.here _ _) hFirst hStart

theorem of_step_of_ne (hReaches : Reaches host count m world last final)
    (hStepped : m.step host world = .ok (.inl next) after) (hMoves : last ≠ m) :
    ∃ less, Reaches host less next after last final := by
  cases hReaches with
  | here => exact absurd rfl hMoves
  | step hFirst hRest =>
      rw [hStepped] at hFirst
      cases hFirst
      exact ⟨_, hRest⟩

theorem of_finish {finished : Finished κ} (hReaches : Reaches host count m world last final)
    (hEnded : m.step host world = .ok (.inr finished) after) : last = m ∧ final = world := by
  cases hReaches with
  | here => exact ⟨rfl, rfl⟩
  | step hFirst _ =>
      rw [hEnded] at hFirst
      cases hFirst

theorem of_error {halt : Halt κ} (hReaches : Reaches host count m world last final)
    (hFailed : m.step host world = .error halt after) : last = m := by
  cases hReaches with
  | here => rfl
  | step hFirst _ =>
      rw [hFailed] at hFirst
      cases hFirst

end Reaches

theorem step_finish_cases {m : Machine κ τ} {world after : World ω} {finished : Finished κ}
    (hEnded : m.step host world = .ok (.inr finished) after) :
    m = ⟨.deliver finished.value, finished.state, [], finished.steps⟩ ∧ after = world := by
  obtain ⟨mode, state, stack, steps⟩ := m
  cases mode with
  | take p =>
      obtain ⟨_, _, hSame⟩ := Exec.map_eq_ok.mp hEnded
      cases hSame
  | deliver value =>
      cases stack with
      | nil =>
          cases hEnded
          exact ⟨rfl, rfl⟩
      | cons top below =>
          obtain ⟨_, _, hSame⟩ := Exec.map_eq_ok.mp hEnded
          cases hSame

theorem reaches_of_drive {fuel : Nat} {m : Machine κ τ} {world after : World ω}
    {finished : Finished κ} (hDriven : m.drive host fuel world = .ok finished after) :
    ∃ count, Reaches host count m world
      ⟨.deliver finished.value, finished.state, [], finished.steps⟩ after := by
  induction fuel generalizing m world with
  | zero => cases hDriven
  | succ fuel ih =>
      rcases drive_succ_cases hDriven with ⟨next, middle, hStepped, hRest⟩ | hEnded
      · obtain ⟨count, hReaches⟩ := ih hRest
        exact ⟨count + 1, .step hStepped hReaches⟩
      · obtain ⟨rfl, rfl⟩ := step_finish_cases hEnded
        exact ⟨0, .here _ _⟩

/-- An exception that leaves a run was raised by a step, or by the unwinding that it set off. -/
theorem unwinds_of_drive {fuel : Nat} {m : Machine κ τ} {world final : World ω}
    {exception : Raised κ} (hDriven : m.drive host fuel world = .error (.raised exception) final) :
    ∃ count last middle first after, Reaches host count m world last middle ∧
      last.step host middle = .error (.raised first) after ∧
      unwind host last.suspended first after = .error (.raised exception) final := by
  induction fuel generalizing m world with
  | zero => cases hDriven
  | succ fuel ih =>
      cases hStepped : m.step host world with
      | ok result middle =>
          cases result with
          | inl next =>
              rw [drive_of_step hStepped] at hDriven
              obtain ⟨count, last, reached, first, after, hReaches, hRaised, hUnwound⟩ := ih hDriven
              exact ⟨count + 1, last, reached, first, after, .step hStepped hReaches, hRaised, hUnwound⟩
          | inr ended =>
              rw [drive_of_finish hStepped] at hDriven
              cases hDriven
      | error halt middle =>
          cases halt with
          | raised first =>
              rw [drive_of_raise hStepped] at hDriven
              exact ⟨0, m, world, first, middle, .here m world, hStepped, hDriven⟩
          | exhausted =>
              rw [drive_of_exhausted hStepped] at hDriven
              cases hDriven

def advance (host : Host κ τ ω lacking) :
    Nat → Machine κ τ → World ω → Option (Machine κ τ × World ω)
  | 0, m, world => some (m, world)
  | count + 1, m, world =>
      match m.step host world with
      | .ok (.inl next) after => advance host count next after
      | _ => none

theorem reaches_of_advance {count : Nat} {m last : Machine κ τ} {world final : World ω}
    (hAdvances : advance host count m world = some (last, final)) :
    Reaches host count m world last final := by
  induction count generalizing m world with
  | zero =>
      cases hAdvances
      exact .here last final
  | succ count ih =>
      unfold advance at hAdvances
      split at hAdvances
      · exact .step ‹_› (ih hAdvances)
      · cases hAdvances

/-- The machine comes to its end within the bound, and the property holds all along. -/
def Along (host : Host κ τ ω lacking) (P : Machine κ τ → World ω → Prop) :
    Nat → Machine κ τ → World ω → Prop
  | 0, _, _ => False
  | bound + 1, m, world =>
      P m world ∧
        match m.step host world with
        | .ok (.inl next) after => Along host P bound next after
        | _ => True

/-- What holds along a computed run holds wherever the machine comes to. -/
theorem Along.of_reaches {P : Machine κ τ → World ω → Prop} {bound count : Nat}
    {m last : Machine κ τ} {world final : World ω} (hAlong : Along host P bound m world)
    (hReaches : Reaches host count m world last final) : P last final := by
  induction hReaches generalizing bound with
  | here =>
      cases bound with
      | zero => exact hAlong.elim
      | succ bound => exact hAlong.1
  | step hStepped _ ih =>
      cases bound with
      | zero => exact hAlong.elim
      | succ bound =>
          have hOnward := hAlong.2
          rw [hStepped] at hOnward
          exact ih hOnward

end Machine

end Backtrack
