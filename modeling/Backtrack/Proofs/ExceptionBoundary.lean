import Backtrack.Proofs.Disposal
import Backtrack.Proofs.Soundness

namespace Backtrack

variable {κ τ ω α : Type} {lacking : Bool}

/-- The class of the exception is one of the kinds or descends from one. -/
def Raised.IsCovered (exception : Raised κ) (kinds : List ExceptionClass) : Prop :=
  ∃ kind ∈ kinds, kind ∈ exception.exceptionClass.lineage

theorem Raised.any_isA_iff {exception : Raised κ} {kinds : List ExceptionClass} :
    kinds.any exception.exceptionClass.isA = true ↔ exception.IsCovered kinds := by
  simp [IsCovered, ExceptionClass.isA]

instance (exception : Raised κ) (kinds : List ExceptionClass) :
    Decidable (exception.IsCovered kinds) :=
  decidable_of_iff _ Raised.any_isA_iff

namespace Exec

variable {x : Exec κ ω α} {exception : Raised κ} {world after : World ω}

def outcome (x : Exec κ ω α) : Exec κ ω (Except (Raised κ) α) :=
  tryCatch (Except.ok <$> x) fun
    | .raised exception => pure (.error exception)
    | .exhausted => throw .exhausted

theorem outcome_of_ok {a : α} (hEnded : x world = .ok a after) :
    x.outcome world = .ok (.ok a) after :=
  tryCatch_of_ok (map_of_ok hEnded)

theorem outcome_of_raised (hRaised : x world = .error (.raised exception) after) :
    x.outcome world = .ok (.error exception) after :=
  tryCatch_of_error (map_of_error hRaised)

theorem outcome_of_exhausted (hEnded : x world = .error .exhausted after) :
    x.outcome world = .error .exhausted after :=
  tryCatch_of_error (map_of_error hEnded)

end Exec

namespace Host

variable {x : Exec κ ω (Value κ)} {kinds : List ExceptionClass} {exception : Raised κ}
  {world after : World ω}

theorem guarded_of_ok {value : Value κ} (hEnded : x world = .ok value after) :
    guarded x kinds world = .ok (.ok value) after :=
  Exec.tryCatch_of_ok (Exec.map_of_ok hEnded)

theorem guarded_of_covered (hRaised : x world = .error (.raised exception) after)
    (hCovered : exception.IsCovered kinds) :
    guarded x kinds world =
      ((fun text => Value.failWith (.str text)) <$> Exec.demand exception.failureText :
        Exec κ ω (Value κ)) after := by
  rw [guarded, Exec.tryCatch_of_error (Exec.map_of_error hRaised)]
  simp only [Raised.any_isA_iff.mpr hCovered, if_true]

theorem guarded_of_not_covered (hRaised : x world = .error (.raised exception) after)
    (hUncovered : ¬ exception.IsCovered kinds) :
    guarded x kinds world = .error (.raised exception) after := by
  rw [guarded, Exec.tryCatch_of_error (Exec.map_of_error hRaised)]
  simp only [Raised.any_isA_iff, hUncovered, if_false]
  rfl

theorem guarded_of_exhausted (hEnded : x world = .error .exhausted after) :
    guarded x kinds world = .error .exhausted after :=
  Exec.tryCatch_of_error (Exec.map_of_error hEnded)

end Host

namespace Machine

variable {host : Host κ τ ω lacking} {m : Machine κ τ} {thunk : Callable κ} {kinds : List ExceptionClass}
  {world after final : World ω}

def Catches (m : Machine κ τ) (thunk : Callable κ) (kinds : List ExceptionClass) : Prop :=
  ∃ mark, m.mode = .take (.generator mark (.map .get (.attempt thunk kinds)))

/-- The machine when the catch has given its result: it took up two programs, and nothing else changed. -/
def given (m : Machine κ τ) (result : Value κ) : Machine κ τ :=
  { m with mode := .deliver result, steps := m.steps + 2 }

def evaluating (m : Machine κ τ) (thunk : Callable κ) (kinds : List ExceptionClass) : Machine κ τ :=
  { m with
    mode := .deliver m.state
    stack := .mapped (.attempt thunk kinds) :: m.stack
    steps := m.steps + 2 }

/-- How a run goes on after the thunk of a catch: from the state in which the catch was taken up, with the
success or with the failure that records an exception of one of the kinds; any other exception unwinds it. -/
def afterThunk (host : Host κ τ ω lacking) (fuel : Nat) (kinds : List ExceptionClass) (m : Machine κ τ) :
    Except (Raised κ) (Value κ) → Exec κ ω (Finished κ)
  | .ok value => (m.given (.ok value)).drive host fuel
  | .error exception =>
      if exception.IsCovered kinds then
        match exception.message with
        | .ok text =>
            let recorded := if text.isEmpty then exception.exceptionClass.text else text
            (m.given (.err (.leaf (.str recorded)))).drive host fuel
        | .error cause => unwind host m.stack (.fault cause)
      else unwind host m.stack exception.sealed

theorem Catches.reaches (hCatches : m.Catches thunk kinds) :
    Reaches host 3 m world (m.evaluating thunk kinds) world := by
  obtain ⟨mode, state, stack, steps⟩ := m
  obtain ⟨mark, rfl⟩ : ∃ mark, mode = _ := hCatches
  exact .step rfl (.step rfl (.step rfl (.here _ _)))

theorem drive_evaluating_of_ok {result : Value κ}
    (hEvaluated : Host.guarded (host.invoke thunk []) kinds world = .ok result after) (fuel : Nat) :
    (m.evaluating thunk kinds).drive host (fuel + 1) world = (m.given result).drive host fuel after :=
  drive_of_step (step_of_returned (Exec.bind_of_ok (Exec.sealed_of_ok hEvaluated))) fuel

theorem drive_evaluating_of_raised {exception : Raised κ}
    (hEvaluated : Host.guarded (host.invoke thunk []) kinds world =
      .error (.raised exception) after) (fuel : Nat) :
    (m.evaluating thunk kinds).drive host (fuel + 1) world =
      unwind host m.stack exception.sealed after :=
  drive_of_raise (step_of_resume_error (Exec.bind_of_error (Exec.sealed_of_error hEvaluated))) fuel

theorem drive_evaluating (fuel : Nat) :
    (m.evaluating thunk kinds).drive host (fuel + 1) world =
      ((host.invoke thunk []).outcome >>= m.afterThunk host fuel kinds) world := by
  cases hEnded : host.invoke thunk [] world with
  | ok value after =>
      rw [Exec.bind_of_ok (Exec.outcome_of_ok hEnded),
        drive_evaluating_of_ok (Host.guarded_of_ok hEnded)]
      rfl
  | error halt after =>
      cases halt with
      | exhausted =>
          rw [Exec.bind_of_error (Exec.outcome_of_exhausted hEnded)]
          exact drive_of_exhausted
            (step_of_resume_error (Exec.bind_of_error
              (Exec.sealed_of_error (Host.guarded_of_exhausted hEnded)))) fuel
      | raised exception =>
          rw [Exec.bind_of_ok (Exec.outcome_of_raised hEnded), afterThunk]
          by_cases hCovered : exception.IsCovered kinds
          · have hRecovered := Host.guarded_of_covered hEnded hCovered
            rw [if_pos hCovered]
            cases hShown : exception.message with
            | ok text =>
                rw [Raised.failureText, hShown] at hRecovered
                exact drive_evaluating_of_ok hRecovered fuel
            | error cause =>
                rw [Raised.failureText, hShown] at hRecovered
                exact drive_evaluating_of_raised hRecovered fuel
          · rw [if_neg hCovered]
            exact drive_evaluating_of_raised (Host.guarded_of_not_covered hEnded hCovered) fuel

/-- From a catch on, a run is one evaluation of its thunk and what follows from how that ends. -/
theorem Catches.drive (hCatches : m.Catches thunk kinds) (fuel : Nat) :
    m.drive host (fuel + 4) world =
      ((host.invoke thunk []).outcome >>= m.afterThunk host fuel kinds) world :=
  (hCatches.reaches.drive (fuel + 1)).trans (drive_evaluating fuel)

end Machine

namespace Script

def thunk (body : Expr) : Callable Code :=
  .code none (.mk "fn" [] (.expression body) [])

def unprintable : Callable Code :=
  thunk (raising .value [.operation (.combinator .outcome) [.int 5, .int 0, .bool false]])

end Script

end Backtrack
