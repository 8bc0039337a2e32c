import Backtrack.Proofs.Inversion

/-! The unrolling of a body in do-notation. While it runs, a body unrolls to the alternative that binds what
it yields to the rest of it. The machine runs the body as it unrolls, and then closes it if it is left
suspended. -/

namespace Backtrack

variable {κ τ ω : Type} {lacking : Bool}

abbrev RunResult (κ : Type) : Type := Except (Raised κ) (Value κ × Value κ)

def Outcome.result : Outcome κ → RunResult κ
  | returned value state _ => .ok (value, state)
  | raised exception => .error exception

theorem Outcome.returned_of_result {outcome : Outcome κ} {value state : Value κ} {steps : Nat}
    (hSame : outcome.result = (returned value state steps).result) :
    ∃ more, outcome = .returned value state more := by
  cases outcome with
  | raised => cases hSame
  | returned value state more =>
      cases hSame
      exact ⟨more, rfl⟩

theorem Outcome.raised_of_result {outcome : Outcome κ} {exception : Raised κ}
    (hSame : outcome.result = (raised exception).result) : outcome = .raised exception := by
  cases outcome with
  | returned => cases hSame
  | raised =>
      cases hSame
      rfl

def Ending.result (ending : Ending κ) : RunResult κ := ending.outcome.result

@[simp] theorem Ending.result_after (spent : Nat) (ending : Ending κ) :
    (ending.after spent).result = ending.result := by
  cases ending with
  | returned value state cost => rfl
  | raised exception => rfl
  | replaced exception => rfl

namespace Value

/-- The value is no failure, and holds another one that a sequence goes on with. -/
def Succeeds (sent value : Value κ) : Prop :=
  (∀ failure, sent ≠ .err failure) ∧ sent.value? = .ok value

def Misfits (sent : Value κ) (cause : Fault κ) : Prop :=
  (∀ failure, sent ≠ .err failure) ∧ sent.value? = .error cause

theorem sent_cases (sent : Value κ) :
    (∃ failure, sent = .err failure) ∨ (∃ value, sent.Succeeds value) ∨
      ∃ cause, sent.Misfits cause := by
  by_cases hFails : ∃ failure, sent = .err failure
  · exact .inl hFails
  · have hSucceeds : ∀ failure, sent ≠ .err failure := fun failure hSame => hFails ⟨failure, hSame⟩
    cases hHeld : sent.value? with
    | ok value => exact .inr (.inl ⟨value, hSucceeds, hHeld⟩)
    | error cause => exact .inr (.inr ⟨cause, hSucceeds, hHeld⟩)

end Value

namespace Host

/-- What a body unrolls to once it has come to a yield or to its end. The rest of it is resumed by a
function. -/
def unrolled (name : Option String) (resumption : τ → κ) : Step κ τ → Exec κ ω (Alternative κ)
  | .returned value => pure (.inject value)
  | .yielded (.alternative _ p) t => pure (.bind ⟨p⟩ (.code none (resumption t)))
  | .yielded other _ => Exec.fail (.yieldedNonAlternative name other.typeName)

/-- Begins the body of a call, within a generator, and gives what it unrolls to. -/
def unroll (host : Host κ τ ω lacking) (resumption : τ → κ) (f : DoFunction κ) (args : List (Value κ)) :
    Exec κ ω (Alternative κ) := do
  match ← (host.start f.code args).sealed with
  | .value value => pure (.inject value)
  | .coroutine t => (host.resume t .null).sealed >>= unrolled f.name resumption

/-- For each suspended body the host has a function that resumes it with the argument, and gives what it
then unrolls to. -/
def Resumes (host : Host κ τ ω lacking) (name : Option String) (resumption : τ → κ) : Prop :=
  ∀ t value, host.call (resumption t) [value] =
    Alternative.toValue <$> (host.resume t value >>= unrolled name resumption)

end Host

/-- Where the run of a body stands: it is about to be called, it has come to a yield or to its end, or it
is suspended and what it yielded has given a value. -/
inductive Stage (κ τ : Type) where
  | calls (code : κ) (args : List (Value κ))
  | reads (step : Step κ τ)
  | sends (t : τ) (sent : Value κ)

/-- How the unrolling of a body runs from a stage, a state and a world: the result, the world that is left,
and the body if it is left suspended. Each body that is suspended is resumed at most once, with the value
of the success of what it yielded. -/
inductive Unrolls (host : Host κ τ ω lacking) (name : Option String) :
    Stage κ τ → Value κ → World ω → RunResult κ → World ω → Option τ → Prop where
  | ordinary {code args value state world final} :
      (host.start code args).sealed world = .ok (.value value) final →
      Unrolls host name (.calls code args) state world (.ok (.ok value, state)) final none
  | callRaised {code args state world exception final} :
      (host.start code args).sealed world = .error (.raised exception) final →
      Unrolls host name (.calls code args) state world (.error exception) final none
  | beginRaised {code args t state world start exception final} :
      (host.start code args).sealed world = .ok (.coroutine t) start →
      (host.resume t .null).sealed start = .error (.raised exception) final →
      Unrolls host name (.calls code args) state world (.error exception) final none
  | begun {code args t step state world start next result final left} :
      (host.start code args).sealed world = .ok (.coroutine t) start →
      (host.resume t .null).sealed start = .ok step next →
      Unrolls host name (.reads step) state next result final left →
      Unrolls host name (.calls code args) state world result final left
  | returned {value state world} :
      Unrolls host name (.reads (.returned value)) state world (.ok (.ok value, state)) world none
  | stray {value t state world} :
      (∀ mark p, value ≠ .alternative mark p) →
      Unrolls host name (.reads (.yielded value t)) state world
        (.error (.fault (.yieldedNonAlternative name value.typeName))) world (some t)
  | ran {mark p t state world value middle cost next result final left} :
      Evaluates host (.program p) state world (.returned value middle cost) next →
      Unrolls host name (.sends t value) middle next result final left →
      Unrolls host name (.reads (.yielded (.alternative mark p) t)) state world result final left
  | raised {mark p t state world exception final} :
      Evaluates host (.program p) state world (.raised exception) final →
      Unrolls host name (.reads (.yielded (.alternative mark p) t)) state world (.error exception)
        final (some t)
  /-- An exception that is raised while others are closed leaves the rest as it is. -/
  | replaced {mark p t state world exception final} :
      Evaluates host (.program p) state world (.replaced exception) final →
      Unrolls host name (.reads (.yielded (.alternative mark p) t)) state world (.error exception)
        final none
  | failed {t failure state world} :
      Unrolls host name (.sends t (.err failure)) state world (.ok (.err failure, state)) world
        (some t)
  | misfit {t sent cause state world} :
      sent.Misfits cause →
      Unrolls host name (.sends t sent) state world (.error (.fault cause)) world (some t)
  | resumed {t sent value step state world next result final left} :
      sent.Succeeds value → (host.resume t value).sealed world = .ok step next →
      Unrolls host name (.reads step) state next result final left →
      Unrolls host name (.sends t sent) state world result final left
  | resumeRaised {t sent value state world exception final} :
      sent.Succeeds value → (host.resume t value).sealed world = .error (.raised exception) final →
      Unrolls host name (.sends t sent) state world (.error exception) final none

/-- The body that is left suspended, if any, is closed. An exception that this raises is the result. -/
inductive Host.Closes (host : Host κ τ ω lacking) :
    Option τ → RunResult κ → World ω → RunResult κ → World ω → Prop where
  | nothing {result world} : Closes host none result world result world
  | closed {t result world final} :
      (host.close t).sealed world = .ok () final → Closes host (some t) result world result final
  | raised {t result world exception final} :
      (host.close t).sealed world = .error (.raised exception) final →
      Closes host (some t) result world (.error exception) final

namespace Host.Closes

variable {host : Host κ τ ω lacking} {left : Option τ} {before result : RunResult κ}
  {middle final : World ω}

theorem exists_of_clean (hClean : ∀ t now, ∃ after, host.close t now = .ok () after)
    (left : Option τ) (before : RunResult κ) (middle : World ω) :
    ∃ final, host.Closes left before middle before final := by
  cases left with
  | none => exact ⟨middle, .nothing⟩
  | some t =>
      obtain ⟨final, hClosed⟩ := hClean t middle
      exact ⟨final, .closed (Exec.sealed_of_ok hClosed)⟩

theorem result_eq_of_clean (hClean : ∀ t now, ∃ after, host.close t now = .ok () after)
    (hCloses : host.Closes left before middle result final) : result = before := by
  cases hCloses with
  | nothing | closed => rfl
  | @raised t _ _ exception _ hRaised =>
      obtain ⟨after, hClosed⟩ := hClean t middle
      rw [Exec.sealed_of_ok hClosed] at hRaised
      cases hRaised

end Host.Closes

namespace Frame

variable {host : Host κ τ ω lacking} {name : Option String} {t : τ} {sent value : Value κ} {step : Step κ τ}
  {rest : Frame κ τ} {world final : World ω}

theorem resume_body_of_succeeds (host : Host κ τ ω lacking) (name : Option String) (t : τ)
    (hSucceeds : sent.Succeeds value) (world : World ω) :
    (body name t).resume host sent world = ((host.resume t value).sealed >>= bodyNext host name) world := by
  obtain ⟨hNofailure, hHeld⟩ := hSucceeds
  change bodySend host name t sent world = _
  unfold bodySend
  split
  · exact absurd rfl (hNofailure _)
  · rw [hHeld]

theorem resume_body_of_misfits (host : Host κ τ ω lacking) (name : Option String) (t : τ) {cause : Fault κ}
    (hMisfits : sent.Misfits cause) (world : World ω) :
    (body name t).resume host sent world =
      ((host.close t).sealed >>= fun _ => Exec.fail cause) world := by
  obtain ⟨hNofailure, hHeld⟩ := hMisfits
  change bodySend host name t sent world = _
  unfold bodySend
  split
  · exact absurd rfl (hNofailure _)
  · rw [hHeld]

theorem bodyNext_of_stray (hStray : ∀ mark p, value ≠ .alternative mark p) :
    bodyNext host name (.yielded value t) = (host.close t).sealed >>= fun _ =>
      Exec.fail (.yieldedNonAlternative name value.typeName) := by
  cases value with
  | alternative mark p => exact absurd rfl (hStray mark p)
  | _ => rfl

theorem bodyNext_eq_returned
    (hRead : bodyNext host name step world = .ok (.returned value) final) :
    ∃ result, step = .returned result ∧ value = .ok result ∧ final = world := by
  cases step with
  | returned result =>
      cases hRead
      exact ⟨result, rfl, rfl, rfl⟩
  | yielded yielded t =>
      cases yielded with
      | alternative mark p => cases hRead
      | _ =>
          obtain ⟨_, _, _, hFailed⟩ := Exec.bind_eq_ok.mp hRead
          cases hFailed

theorem bodyNext_eq_yielded
    (hRead : bodyNext host name step world = .ok (.yielded value rest) final) :
    ∃ mark p t, step = .yielded (.alternative mark p) t ∧ value = .program p ∧
      rest = .body name t ∧ final = world := by
  cases step with
  | returned result => cases hRead
  | yielded yielded t =>
      cases yielded with
      | alternative mark p =>
          cases hRead
          exact ⟨mark, p, t, rfl, rfl, rfl, rfl⟩
      | _ =>
          obtain ⟨_, _, _, hFailed⟩ := Exec.bind_eq_ok.mp hRead
          cases hFailed

theorem bodyNext_eq_error {halt : Halt κ} (hRead : bodyNext host name step world = .error halt final) :
    ∃ value t, step = .yielded value t ∧ (∀ mark p, value ≠ .alternative mark p) ∧
      (((host.close t).sealed world = .ok () final ∧
          halt = .raised (.fault (.yieldedNonAlternative name value.typeName))) ∨
        (host.close t).sealed world = .error halt final) := by
  cases step with
  | returned result => cases hRead
  | yielded value t =>
      by_cases hAlternative : ∃ mark p, value = .alternative mark p
      · obtain ⟨mark, p, rfl⟩ := hAlternative
        cases hRead
      · have hStray : ∀ mark p, value ≠ .alternative mark p :=
          fun mark p hSame => hAlternative ⟨mark, p, hSame⟩
        rw [bodyNext_of_stray hStray] at hRead
        refine ⟨value, t, rfl, hStray, ?_⟩
        cases hClosed : (host.close t).sealed world with
        | ok _ after =>
            rw [Exec.bind_of_ok hClosed] at hRead
            cases hRead
            exact .inl ⟨rfl, rfl⟩
        | error other after =>
            rw [Exec.bind_of_error hClosed] at hRead
            cases hRead
            exact .inr rfl

end Frame

/-- The generator that is sent the value in the world `start` does what a call in do-notation does from the
stage and the world. -/
inductive Enters (host : Host κ τ ω lacking) (name : Option String) :
    Stage κ τ → World ω → Frame κ τ → Value κ → World ω → Prop where
  | calls {f : DoFunction κ} {args world} :
      f.name = name → Enters host name (.calls f.code args) world (.fresh (.body f args)) .null world
  | reads {frame : Frame κ τ} {sent step world start} :
      frame.resume host sent start = Frame.bodyNext host name step world →
      Enters host name (.reads step) world frame sent start
  | sends {t sent world} : Enters host name (.sends t sent) world (.body name t) sent world

/-- From the stage, the body comes to the result and is closed. -/
def Settles (host : Host κ τ ω lacking) (name : Option String) (stage : Stage κ τ) (state : Value κ)
    (world : World ω) (result : RunResult κ) (final : World ω) : Prop :=
  ∃ left before middle, Unrolls host name stage state world before middle left ∧
    host.Closes left before middle result final

namespace Settles

variable {host : Host κ τ ω lacking} {name : Option String} {t : τ} {state sent value : Value κ}
  {frame : Frame κ τ} {activity : Activity κ τ} {step : Step κ τ} {stage : Stage κ τ}
  {ending : Ending κ} {result : RunResult κ} {world start final : World ω}

theorem of_sends (hEvaluates : Evaluates host (.generator (.body name t) sent) state world ending final)
    (hReads : ∀ step after,
      (Frame.body name t).resume host sent world = Frame.bodyNext host name step after →
        Settles host name (.reads step) state after ending.result final) :
    Settles host name (.sends t sent) state world ending.result final := by
  rcases sent.sent_cases with ⟨failure, rfl⟩ | ⟨value, hSucceeds⟩ | ⟨cause, hMisfits⟩
  · cases hClosed : (host.close t).sealed world with
    | ok _ after =>
        obtain ⟨rfl, rfl⟩ :=
          (Evaluates.returned_iff (Exec.bind_of_ok hClosed)).mp hEvaluates
        exact ⟨_, _, _, .failed, .closed hClosed⟩
    | error halt after =>
        obtain ⟨exception, rfl, rfl, rfl⟩ :=
          Evaluates.halted_cases (Exec.bind_of_error hClosed) hEvaluates
        exact ⟨_, _, _, .failed, .raised hClosed⟩
  · have hUnfolds := Frame.resume_body_of_succeeds host name t hSucceeds world
    cases hResumed : (host.resume t value).sealed world with
    | ok step after =>
        have hRead : (Frame.body name t).resume host sent world =
            Frame.bodyNext host name step after :=
          hUnfolds.trans (Exec.bind_of_ok hResumed)
        obtain ⟨left, before, middle, hUnrolls, hCloses⟩ := hReads step after hRead
        exact ⟨left, before, middle, .resumed hSucceeds hResumed hUnrolls, hCloses⟩
    | error halt after =>
        obtain ⟨exception, rfl, rfl, rfl⟩ :=
          Evaluates.halted_cases (hUnfolds.trans (Exec.bind_of_error hResumed)) hEvaluates
        exact ⟨_, _, _, .resumeRaised hSucceeds hResumed, .nothing⟩
  · have hUnfolds := Frame.resume_body_of_misfits host name t hMisfits world
    cases hClosed : (host.close t).sealed world with
    | ok _ after =>
        have hFailed := hUnfolds.trans (Exec.bind_of_ok hClosed)
        obtain ⟨rfl, rfl⟩ := (Evaluates.resumeRaised_iff hFailed).mp hEvaluates
        exact ⟨_, _, _, .misfit hMisfits, .closed hClosed⟩
    | error halt after =>
        obtain ⟨exception, rfl, rfl, rfl⟩ :=
          Evaluates.halted_cases (hUnfolds.trans (Exec.bind_of_error hClosed)) hEvaluates
        exact ⟨_, _, _, .misfit hMisfits, .raised hClosed⟩

theorem of_reads (hEvaluates : Evaluates host activity state start ending final)
    (hSame : activity = .generator frame sent)
    (hReads : frame.resume host sent start = Frame.bodyNext host name step world) :
    Settles host name (.reads step) state world ending.result final := by
  -- What is left of the body after a yield is a part of the evaluation, so the induction applies to it.
  induction hEvaluates generalizing frame sent step world with
  | pure | get | put | modify | modifyRaised | foreign | foreignEffect | generator => cases hSame
  | returned hResumed =>
      cases hSame
      rw [hReads] at hResumed
      obtain ⟨result, rfl, rfl, rfl⟩ := Frame.bodyNext_eq_returned hResumed
      exact ⟨_, _, _, .returned, .nothing⟩
  | resumeRaised hResumed =>
      cases hSame
      rw [hReads] at hResumed
      obtain ⟨value, t, rfl, hStray, ⟨hClosed, ⟨⟩⟩ | hClosed⟩ := Frame.bodyNext_eq_error hResumed
      · exact ⟨_, _, _, .stray hStray, .closed hClosed⟩
      · exact ⟨_, _, _, .stray hStray, .raised hClosed⟩
  | yielded hResumed hEvaluates hContinues _ ih =>
      cases hSame
      rw [hReads] at hResumed
      obtain ⟨mark, p, t, rfl, ⟨⟩, rfl, rfl⟩ := Frame.bodyNext_eq_yielded hResumed
      obtain ⟨left, before, middle, hUnrolls, hCloses⟩ :=
        of_sends hContinues fun step after hRead => ih rfl hRead
      rw [Ending.result_after]
      exact ⟨left, before, middle, .ran hEvaluates hUnrolls, hCloses⟩
  | yieldedRaised hResumed hEvaluates hClosed =>
      cases hSame
      rw [hReads] at hResumed
      obtain ⟨mark, p, t, rfl, ⟨⟩, rfl, rfl⟩ := Frame.bodyNext_eq_yielded hResumed
      exact ⟨_, _, _, .raised hEvaluates, .closed hClosed⟩
  | yieldedReplacing hResumed hEvaluates hClosed =>
      cases hSame
      rw [hReads] at hResumed
      obtain ⟨mark, p, t, rfl, ⟨⟩, rfl, rfl⟩ := Frame.bodyNext_eq_yielded hResumed
      exact ⟨_, _, _, .raised hEvaluates, .raised hClosed⟩
  | yieldedReplaced hResumed hEvaluates =>
      cases hSame
      rw [hReads] at hResumed
      obtain ⟨mark, p, t, rfl, ⟨⟩, rfl, rfl⟩ := Frame.bodyNext_eq_yielded hResumed
      exact ⟨_, _, _, .replaced hEvaluates, .nothing⟩
  | stray hResumed hStray | strayRaised hResumed hStray =>
      cases hSame
      rw [hReads] at hResumed
      obtain ⟨mark, p, t, rfl, rfl, rfl, rfl⟩ := Frame.bodyNext_eq_yielded hResumed
      exact absurd rfl (hStray p)

theorem of_calls {f : DoFunction κ} {args : List (Value κ)}
    (hEvaluates : Evaluates host (.generator (.fresh (.body f args)) .null) state world ending final) :
    Settles host f.name (.calls f.code args) state world ending.result final := by
  cases hStarted : (host.start f.code args).sealed world with
  | error halt after =>
      obtain ⟨exception, rfl, rfl, rfl⟩ :=
        Evaluates.halted_cases (Exec.bind_of_error hStarted) hEvaluates
      exact ⟨_, _, _, .callRaised hStarted, .nothing⟩
  | ok given after =>
      cases given with
      | value value =>
          obtain ⟨rfl, rfl⟩ := (Evaluates.returned_iff (Exec.bind_of_ok hStarted)).mp hEvaluates
          exact ⟨_, _, _, .ordinary hStarted, .nothing⟩
      | coroutine t =>
          cases hResumed : (host.resume t .null).sealed after with
          | error halt next =>
              obtain ⟨exception, rfl, rfl, rfl⟩ := Evaluates.halted_cases
                ((Exec.bind_of_ok hStarted).trans (Exec.bind_of_error hResumed)) hEvaluates
              exact ⟨_, _, _, .beginRaised hStarted hResumed, .nothing⟩
          | ok step next =>
              obtain ⟨left, before, middle, hUnrolls, hCloses⟩ := of_reads hEvaluates rfl
                ((Exec.bind_of_ok hStarted).trans (Exec.bind_of_ok hResumed))
              exact ⟨left, before, middle, .begun hStarted hResumed hUnrolls, hCloses⟩

theorem evaluates {before : RunResult κ} {middle : World ω} {left : Option τ}
    (hUnrolls : Unrolls host name stage state world before middle left)
    (hCloses : host.Closes left before middle result final)
    (hEnters : Enters host name stage world frame sent start) :
    ∃ ending, Evaluates host (.generator frame sent) state start ending final ∧
      ending.result = result := by
  induction hUnrolls generalizing frame sent start with
  | ordinary hStarted =>
      cases hEnters
      cases hCloses
      exact ⟨_, .returned (Exec.bind_of_ok hStarted), rfl⟩
  | callRaised hStarted =>
      cases hEnters
      cases hCloses
      exact ⟨_, .resumeRaised (Exec.bind_of_error hStarted), rfl⟩
  | beginRaised hStarted hResumed =>
      cases hEnters
      cases hCloses
      exact ⟨_, .resumeRaised ((Exec.bind_of_ok hStarted).trans (Exec.bind_of_error hResumed)), rfl⟩
  | begun hStarted hResumed _ ih =>
      cases hEnters with
      | calls hNamed =>
          subst hNamed
          exact ih hCloses (.reads ((Exec.bind_of_ok hStarted).trans (Exec.bind_of_ok hResumed)))
  | returned =>
      cases hEnters with
      | reads hRead =>
          cases hCloses
          exact ⟨_, .returned hRead, rfl⟩
  | stray hStray =>
      cases hEnters with
      | reads hRead =>
          rw [Frame.bodyNext_of_stray hStray] at hRead
          cases hCloses with
          | closed hClosed => exact ⟨_, .resumeRaised (hRead.trans (Exec.bind_of_ok hClosed)), rfl⟩
          | raised hClosed => exact ⟨_, .resumeRaised (hRead.trans (Exec.bind_of_error hClosed)), rfl⟩
  | ran hRan _ ih =>
      cases hEnters with
      | reads hRead =>
          obtain ⟨ending, hContinues, hSame⟩ := ih hCloses .sends
          exact ⟨_, .yielded hRead hRan hContinues, (Ending.result_after _ ending).trans hSame⟩
  | raised hRaised =>
      cases hEnters with
      | reads hRead =>
          cases hCloses with
          | closed hClosed => exact ⟨_, .yieldedRaised hRead hRaised hClosed, rfl⟩
          | raised hClosed => exact ⟨_, .yieldedReplacing hRead hRaised hClosed, rfl⟩
  | replaced hReplaced =>
      cases hEnters with
      | reads hRead =>
          cases hCloses
          exact ⟨_, .yieldedReplaced hRead hReplaced, rfl⟩
  | failed =>
      cases hEnters
      cases hCloses with
      | closed hClosed => exact ⟨_, .returned (Exec.bind_of_ok hClosed), rfl⟩
      | raised hClosed => exact ⟨_, .resumeRaised (Exec.bind_of_error hClosed), rfl⟩
  | @misfit t _ _ _ world hMisfits =>
      cases hEnters
      have hUnfolds := Frame.resume_body_of_misfits host name t hMisfits world
      cases hCloses with
      | closed hClosed =>
          exact ⟨_, .resumeRaised (hUnfolds.trans (Exec.bind_of_ok hClosed)), rfl⟩
      | raised hClosed =>
          exact ⟨_, .resumeRaised (hUnfolds.trans (Exec.bind_of_error hClosed)), rfl⟩
  | @resumed t _ _ _ _ world _ _ _ _ hSucceeds hResumed _ ih =>
      cases hEnters
      have hUnfolds := Frame.resume_body_of_succeeds host name t hSucceeds world
      exact ih hCloses (.reads (hUnfolds.trans (Exec.bind_of_ok hResumed)))
  | @resumeRaised t _ _ _ world _ _ hSucceeds hResumed =>
      cases hEnters
      cases hCloses
      have hUnfolds := Frame.resume_body_of_succeeds host name t hSucceeds world
      exact ⟨_, .resumeRaised (hUnfolds.trans (Exec.bind_of_error hResumed)), rfl⟩

end Settles

end Backtrack
