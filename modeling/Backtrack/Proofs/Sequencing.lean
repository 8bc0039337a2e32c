import Backtrack.Proofs.Sequel

namespace Backtrack

variable {κ τ ω : Type} {host : Host κ τ ω} {f : Callable κ} {value state : Value κ}
  {world next final : World ω} {ending : Ending κ} {outcome : Outcome κ}

/-- How a call goes that is to give an alternative, and the run of that from the state. -/
inductive Called (call : Exec κ ω (Value κ)) (host : Host κ τ ω) (state : Value κ) (world : World ω) :
    Outcome κ → World ω → Prop where
  | ran {mark p next outcome final} :
      call world = .ok (.alternative mark p) next →
      p.Runs host state next outcome final → Called call host state world outcome final
  | stray {other next} :
      call world = .ok other next → (∀ mark p, other ≠ .alternative mark p) →
      Called call host state world
        (.raised (.fault (.expectedAlternative .binderResult other.typeName))) next
  | raised {exception next} :
      call world = .error (.raised exception) next →
      Called call host state world (.raised exception) next

namespace Called

variable {call : Exec κ ω (Value κ)}

theorem ran_iff {mark : Mark} {p : Program κ} (hInvoked : call world = .ok (.alternative mark p) next) :
    Called call host state world outcome final ↔ p.Runs host state next outcome final := by
  constructor
  · intro hCalls
    cases hCalls with
    | ran hOther hRuns =>
        rw [hInvoked] at hOther
        cases hOther
        exact hRuns
    | stray hOther hStray =>
        rw [hInvoked] at hOther
        cases hOther
        exact absurd rfl (hStray mark p)
    | raised hOther =>
        rw [hInvoked] at hOther
        cases hOther
  · exact .ran hInvoked

theorem stray_iff {produced : Value κ} (hInvoked : call world = .ok produced next)
    (hStray : ∀ mark p, produced ≠ .alternative mark p) :
    Called call host state world outcome final ↔
      outcome = .raised (.fault (.expectedAlternative .binderResult produced.typeName)) ∧
        final = next := by
  constructor
  · intro hCalls
    cases hCalls with
    | ran hOther hRuns =>
        rw [hInvoked] at hOther
        cases hOther
        exact absurd rfl (hStray _ _)
    | stray hOther =>
        rw [hInvoked] at hOther
        cases hOther
        exact ⟨rfl, rfl⟩
    | raised hOther =>
        rw [hInvoked] at hOther
        cases hOther
  · rintro ⟨rfl, rfl⟩
    exact .stray hInvoked hStray

theorem raised_iff {exception : Raised κ} (hInvoked : call world = .error (.raised exception) next) :
    Called call host state world outcome final ↔ outcome = .raised exception ∧ final = next := by
  constructor
  · intro hCalls
    cases hCalls with
    | ran hOther | stray hOther =>
        rw [hInvoked] at hOther
        cases hOther
    | raised hOther =>
        rw [hInvoked] at hOther
        cases hOther
        exact ⟨rfl, rfl⟩
  · rintro ⟨rfl, rfl⟩
    exact .raised hInvoked

theorem not_of_exhausted (hInvoked : call world = .error .exhausted next) :
    ¬ Called call host state world outcome final := by
  intro hCalls
  cases hCalls with
  | ran hOther | stray hOther | raised hOther =>
      rw [hInvoked] at hOther
      cases hOther

end Called

/-- The call of a binder, which a generator makes, and the run of the alternative that it gives. -/
def Host.Calls (host : Host κ τ ω) (f : Callable κ) (value state : Value κ) (world : World ω) :
    Outcome κ → World ω → Prop :=
  Called (host.invoke f [value]).sealed host state world

namespace Host.Calls

theorem ran_iff {mark : Mark} {p : Program κ}
    (hInvoked : host.invoke f [value] world = .ok (.alternative mark p) next) :
    host.Calls f value state world outcome final ↔ p.Runs host state next outcome final :=
  Called.ran_iff (Exec.sealed_of_ok hInvoked)

theorem stray_iff {produced : Value κ}
    (hInvoked : host.invoke f [value] world = .ok produced next)
    (hStray : ∀ mark p, produced ≠ .alternative mark p) :
    host.Calls f value state world outcome final ↔
      outcome = .raised (.fault (.expectedAlternative .binderResult produced.typeName)) ∧
        final = next :=
  Called.stray_iff (Exec.sealed_of_ok hInvoked) hStray

theorem raised_iff {exception : Raised κ}
    (hInvoked : host.invoke f [value] world = .error (.raised exception) next) :
    host.Calls f value state world outcome final ↔
      outcome = .raised exception.sealed ∧ final = next :=
  Called.raised_iff (Exec.sealed_of_error hInvoked)

theorem not_of_exhausted (hInvoked : host.invoke f [value] world = .error .exhausted next) :
    ¬ host.Calls f value state world outcome final :=
  Called.not_of_exhausted (Exec.sealed_of_error hInvoked)

end Host.Calls

/-- The call of a binder outside of every generator, and the run of the alternative that it gives. -/
def Host.CallsAlone (host : Host κ τ ω) (f : Callable κ) (value state : Value κ) (world : World ω) :
    Outcome κ → World ω → Prop :=
  Called (host.invoke f [value]) host state world

/-- The call raises the exception that ends generators. -/
def Host.Stops (host : Host κ τ ω) (f : Callable κ) (value : Value κ) (world : World ω) : Prop :=
  ∃ args next, host.invoke f [value] world = .error (.raised (.thrown .stopIteration args)) next

theorem Host.sealed_invoke_of_not_stops (hOther : ¬ host.Stops f value world) :
    (host.invoke f [value]).sealed world = host.invoke f [value] world := by
  cases hInvoked : host.invoke f [value] world with
  | ok produced next => exact Exec.sealed_of_ok hInvoked
  | error halt next =>
      rw [Exec.sealed_of_error hInvoked]
      cases halt with
      | exhausted => rfl
      | raised exception =>
          have hClass : exception.exceptionClass ≠ .stopIteration := by
            intro hStop
            cases exception with
            | fault cause => cases cause <;> cases hStop
            | thrown c args =>
                obtain rfl : c = .stopIteration := hStop
                exact hOther ⟨args, next, hInvoked⟩
          rw [Halt.sealed, Raised.sealed_of_ne hClass]

/-- A generator calls a binder like any other caller, unless that raises what would end the generator. -/
theorem Host.calls_iff_alone (hOther : ¬ host.Stops f value world) :
    host.Calls f value state world outcome final ↔
      host.CallsAlone f value state world outcome final := by
  have hSame := sealed_invoke_of_not_stops hOther
  constructor
  · intro hCalls
    cases hCalls with
    | ran hInvoked hRuns => exact .ran (hSame ▸ hInvoked) hRuns
    | stray hInvoked hStray => exact .stray (hSame ▸ hInvoked) hStray
    | raised hInvoked => exact .raised (hSame ▸ hInvoked)
  · intro hCalls
    cases hCalls with
    | ran hInvoked hRuns => exact .ran (hSame.trans hInvoked) hRuns
    | stray hInvoked hStray => exact .stray (hSame.trans hInvoked) hStray
    | raised hInvoked => exact .raised (hSame.trans hInvoked)

theorem Host.Stops.calls_iff {args : List (Value κ)}
    (hInvoked : host.invoke f [value] world = .error (.raised (.thrown .stopIteration args)) next) :
    host.Calls f value state world outcome final ↔
      outcome = .raised (.thrown .runtime [.str "generator raised StopIteration"]) ∧ final = next :=
  Host.Calls.raised_iff hInvoked

def Host.stopper : Host Unit Empty Unit where
  debug := false
  call _ _ := Exec.raise (.thrown .stopIteration [])
  start _ _ := pure (.value .null)
  spawn _ _ := throw .exhausted
  resume := nofun
  close := nofun

/-- The call of a function with the value of a success, which a generator makes: what it returns is a success
again. -/
inductive Host.Maps (host : Host κ τ ω) (f : Callable κ) (value state : Value κ) (world : World ω) :
    Outcome κ → World ω → Prop where
  | mapped {result : Value κ} {next : World ω} :
      (host.invoke f [value]).sealed world = .ok result next →
      Maps host f value state world (.returned (.ok result) state 1) next
  | raised {exception : Raised κ} {next : World ω} :
      (host.invoke f [value]).sealed world = .error (.raised exception) next →
      Maps host f value state world (.raised exception) next

namespace Host.Maps

variable {result : Value κ} {exception : Raised κ}

theorem mapped_iff (hInvoked : host.invoke f [value] world = .ok result next) :
    host.Maps f value state world outcome final ↔
      outcome = .returned (.ok result) state 1 ∧ final = next := by
  have hSealed := Exec.sealed_of_ok hInvoked
  constructor
  · intro hMaps
    cases hMaps with
    | mapped hOther =>
        rw [hSealed] at hOther
        cases hOther
        exact ⟨rfl, rfl⟩
    | raised hOther =>
        rw [hSealed] at hOther
        cases hOther
  · rintro ⟨rfl, rfl⟩
    exact .mapped hSealed

theorem raised_iff (hInvoked : host.invoke f [value] world = .error (.raised exception) next) :
    host.Maps f value state world outcome final ↔
      outcome = .raised exception.sealed ∧ final = next := by
  have hSealed := Exec.sealed_of_error hInvoked
  constructor
  · intro hMaps
    cases hMaps with
    | mapped hOther =>
        rw [hSealed] at hOther
        cases hOther
    | raised hOther =>
        rw [hSealed] at hOther
        cases hOther
        exact ⟨rfl, rfl⟩
  · rintro ⟨rfl, rfl⟩
    exact .raised hSealed

theorem not_of_exhausted (hInvoked : host.invoke f [value] world = .error .exhausted next) :
    ¬ host.Maps f value state world outcome final := by
  have hSealed := Exec.sealed_of_error hInvoked
  intro hMaps
  cases hMaps with
  | mapped hOther | raised hOther =>
      rw [hSealed] at hOther
      cases hOther

end Host.Maps

namespace Alternative

/-- How a bind ends, once its first computation has come to an outcome and left the world. -/
inductive Proceeds (calls : Value κ → Value κ → World ω → Outcome κ → World ω → Prop) :
    Outcome κ → World ω → Outcome κ → World ω → Prop where
  | failed {failure state : Value κ} {steps : Nat} {world : World ω} :
      Proceeds calls (.returned (.err failure) state steps) world
        (.returned (.err failure) state (steps + 1)) world
  | raised {exception : Raised κ} {world : World ω} :
      Proceeds calls (.raised exception) world (.raised exception) world
  | continued {value state : Value κ} {steps : Nat} {world final : World ω} {outcome : Outcome κ} :
      calls value state world outcome final →
      Proceeds calls (.returned (.ok value) state steps) world (outcome.after (steps + 1)) final

end Alternative

namespace Frame

theorem bound_comes_iff :
    (bound (.call f)).Comes host (.ok value) state world outcome final ↔
      host.Calls f value state world outcome final := by
  have hResumes : ∀ start, (bound (.call f) : Frame κ τ).resume host (.ok value) start =
      ((host.invoke f [value]).sealed >>= yieldAlternative .binderResult .relay) start := fun _ => rfl
  cases hInvoked : host.invoke f [value] world with
  | ok produced next =>
      by_cases hAlternative : ∃ mark p, produced = .alternative mark p
      · obtain ⟨mark, p, rfl⟩ := hAlternative
        rw [Host.Calls.ran_iff hInvoked]
        exact comes_of_relaying ((hResumes world).trans (Exec.bind_of_ok (Exec.sealed_of_ok hInvoked)))
      · have hStray : ∀ mark p, produced ≠ .alternative mark p :=
          fun mark p hSame => hAlternative ⟨mark, p, hSame⟩
        have hFailed : (bound (.call f) : Frame κ τ).resume host (.ok value) world =
            .error (.raised (.fault (.expectedAlternative .binderResult produced.typeName)))
              next := by
          rw [hResumes, Exec.bind_of_ok (Exec.sealed_of_ok hInvoked), yieldAlternative_of_stray hStray]
          rfl
        rw [Host.Calls.stray_iff hInvoked hStray]
        exact comes_of_raised hFailed
  | error halt next =>
      have hFailed : (bound (.call f) : Frame κ τ).resume host (.ok value) world =
          .error halt.sealed next :=
        (hResumes world).trans (Exec.bind_of_error (Exec.sealed_of_error hInvoked))
      cases halt with
      | raised exception =>
          rw [Host.Calls.raised_iff hInvoked]
          exact comes_of_raised hFailed
      | exhausted =>
          exact iff_of_false (not_comes_of_exhausted hFailed) (Host.Calls.not_of_exhausted hInvoked)

theorem mapping_comes_iff :
    (bound (.injectAfter f)).Comes host (.ok value) state world outcome final ↔
      host.Maps f value state world outcome final := by
  have hApplies : ∀ start, host.applyMapper (.injectAfter f) value start =
      (host.invoke f [value] >>= fun result => pure (Alternative.inject result).toValue) start :=
    fun _ => rfl
  have hResumes : ∀ start, (bound (.injectAfter f) : Frame κ τ).resume host (.ok value) start =
      ((host.applyMapper (.injectAfter f) value).sealed >>=
        yieldAlternative .binderResult .relay) start :=
    fun _ => rfl
  cases hInvoked : host.invoke f [value] world with
  | ok result next =>
      rw [Host.Maps.mapped_iff hInvoked, ← Program.pure_runs_iff]
      apply comes_of_relaying
      rw [hResumes, Exec.bind_of_ok (Exec.sealed_of_ok ((hApplies world).trans (Exec.bind_of_ok hInvoked)))]
      rfl
  | error halt next =>
      have hFailed : (bound (.injectAfter f) : Frame κ τ).resume host (.ok value) world =
          .error halt.sealed next :=
        (hResumes world).trans (Exec.bind_of_error
          (Exec.sealed_of_error ((hApplies world).trans (Exec.bind_of_error hInvoked))))
      cases halt with
      | raised exception =>
          rw [Host.Maps.raised_iff hInvoked]
          exact comes_of_raised hFailed
      | exhausted =>
          exact iff_of_false (not_comes_of_exhausted hFailed) (Host.Maps.not_of_exhausted hInvoked)

end Frame

namespace Alternative

variable {calls other : Value κ → Value κ → World ω → Outcome κ → World ω → Prop}

theorem proceeds_continued_iff {steps : Nat} :
    Proceeds calls (.returned (.ok value) state steps) world outcome final ↔
      Outcomes.after (calls value state world) (steps + 1) outcome final := by
  constructor
  · intro hProceeds
    cases hProceeds with
    | continued hCalls => exact ⟨_, hCalls, rfl⟩
  · rintro ⟨called, hCalls, rfl⟩
    exact .continued hCalls

theorem proceeds_failed_iff {failure : Value κ} {steps : Nat} :
    Proceeds calls (.returned (.err failure) state steps) world outcome final ↔
      outcome = .returned (.err failure) state (steps + 1) ∧ final = world := by
  constructor
  · intro hProceeds
    cases hProceeds
    exact ⟨rfl, rfl⟩
  · rintro ⟨rfl, rfl⟩
    exact .failed

theorem proceeds_raised_iff {exception : Raised κ} :
    Proceeds calls (.raised exception) world outcome final ↔
      outcome = .raised exception ∧ final = world := by
  constructor
  · intro hProceeds
    cases hProceeds
    exact ⟨rfl, rfl⟩
  · rintro ⟨rfl, rfl⟩
    exact .raised

theorem proceeds_iff_sequel {first : Outcome κ}
    (hResult : ∀ value state steps, first = .returned value state steps → value.isResult = true) :
    Proceeds calls first next outcome final ↔
      Outcomes.after (Outcomes.Sequel calls first next) 1 outcome final := by
  cases first with
  | raised exception =>
      rw [proceeds_raised_iff, Outcomes.after_sequel_raised_iff]
  | returned value state steps =>
      have hGiven := hResult value state steps rfl
      cases value with
      | ok value =>
          rw [proceeds_continued_iff, Nat.add_comm, ← Outcomes.after_after_iff]
          exact exists_congr fun _ => and_congr_left fun _ => Outcomes.sequel_continued_iff.symm
      | err failure =>
          rw [proceeds_failed_iff, Outcomes.after_sequel_failed_iff, Nat.add_comm]
      | _ => cases hGiven

theorem proceeds_congr {first : Outcome κ}
    (hSame : ∀ value state steps, first = .returned (.ok value) state steps → ∀ outcome final,
      calls value state world outcome final ↔ other value state world outcome final) :
    Proceeds calls first world outcome final ↔ Proceeds other first world outcome final := by
  constructor
  · intro hProceeds
    cases hProceeds with
    | failed => exact .failed
    | raised => exact .raised
    | continued hCalled => exact .continued ((hSame _ _ _ rfl _ _).mp hCalled)
  · intro hProceeds
    cases hProceeds with
    | failed => exact .failed
    | raised => exact .raised
    | continued hCalled => exact .continued ((hSame _ _ _ rfl _ _).mpr hCalled)

end Alternative

namespace Program

theorem bind_runs_iff {mark : Mark} {p : Program κ}
    (hProper : Outcomes.Proper (p.Runs host state world)) :
    (generator mark (.bind p (.call f))).Runs host state world outcome final ↔
      Outcomes.andThen (p.Runs host state world) (Alternative.Proceeds (host.Calls f)) outcome final := by
  rw [bind_runs_iff_sequel (fun _ _ _ _ _ => Frame.bound_comes_iff) hProper, Outcomes.andThen_after_iff]
  refine exists_congr fun first => exists_congr fun next => and_congr_right fun hRuns => ?_
  exact (Alternative.proceeds_iff_sequel fun value left steps hEnded =>
    (hProper value left steps next (hEnded ▸ hRuns)).1).symm

end Program

namespace Alternative

open Outcomes

variable {a : Alternative κ}

theorem bind_runs_iff (hProper : Proper (a.program.Runs host state world)) :
    (bind a f).program.Runs host state world outcome final ↔
      ((andThen (a.program.Runs host state world) (Sequel (host.Calls f))).after 1) outcome final :=
  Program.bind_runs_iff_sequel (fun _ _ _ _ _ => Frame.bound_comes_iff) hProper

theorem fmap_runs_iff (hProper : Proper (a.program.Runs host state world)) :
    (fmap f a).program.Runs host state world outcome final ↔
      ((andThen (a.program.Runs host state world) (Sequel (host.Maps f))).after 1) outcome final :=
  Program.bind_runs_iff_sequel (fun _ _ _ _ _ => Frame.mapping_comes_iff) hProper

end Alternative

end Backtrack
