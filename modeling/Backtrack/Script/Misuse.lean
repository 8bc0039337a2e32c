import Backtrack.Exec
import Backtrack.Script.Expr

namespace Backtrack.Script

inductive Misuse where
  | badOperand
  | arity (name : String) (expected given : Nat)
  /-- a failure exception is raised with no tree or with several -/
  | failureArguments (given : Nat)
  | unbound (name : String)
  | divisionByZero
  | indexOutOfRange
  | notANumber (text : String)
  | missingKey (key : Value Code)

namespace Misuse

def exceptionClass : Misuse → ExceptionClass
  | badOperand | arity _ _ _ | failureArguments _ => .type
  | unbound _ => .name
  | divisionByZero => .zeroDivision
  | indexOutOfRange => .index
  | notANumber _ => .value
  | missingKey _ => .key

/-- The argument of the exception: its message, or the name or key that is missing. -/
def argument : Misuse → Value Code
  | badOperand => .str "bad operand"
  | arity name expected given =>
      .str (name ++ "() takes " ++ toString expected ++ " arguments, got " ++ toString given)
  | failureArguments 0 =>
      .str "AlternativeFailure.__init__() missing 1 required positional argument: 'tree'"
  | failureArguments given =>
      .str ("AlternativeFailure.__init__() takes 2 positional arguments but " ++
        toString (given + 1) ++ " were given")
  | unbound name => .str name
  | divisionByZero => .str "division by zero"
  | indexOutOfRange => .str "index out of range"
  | notANumber text =>
      .str ("invalid literal for int() with base 10: " ++ Text.quoted text)
  | missingKey key => key

def exception (misuse : Misuse) : Raised Code :=
  .thrown misuse.exceptionClass [misuse.argument]

end Misuse

abbrev Run : Type → Type := Exec Code Session

namespace Run

variable {α : Type}

def misuse (cause : Misuse) : Run α :=
  Exec.raise cause.exception

/-- The outcome of a computation that may raise an exception; the end of the fuel is passed on. -/
def caught (computation : Run α) : Run (Except (Raised Code) α) :=
  tryCatch (Except.ok <$> computation) fun
    | .raised exception => pure (.error exception)
    | .exhausted => throw .exhausted

end Run

end Backtrack.Script
