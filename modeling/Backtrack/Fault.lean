import Backtrack.ExceptionClass
import Backtrack.ErrorTree.Printer
import Backtrack.Value.Printer

namespace Backtrack

inductive OperandRole where
  | bindSource
  | binderResult
  | applyArgument
  | sequenceElement
  | traverseResult
  | leftOperand
  | rightOperand
  | chainElement
  deriving DecidableEq, Repr

def OperandRole.text : OperandRole → String
  | bindSource => "bind source"
  | binderResult => "binder result"
  | applyArgument => "apply argument"
  | sequenceElement => "sequence element"
  | traverseResult => "traverse result"
  | leftOperand => "left alternative"
  | rightOperand => "right alternative"
  | chainElement => "alternative"

inductive CallableRole where
  | mapper
  | binder
  | programBinder
  | traverse
  | programModify
  | modify
  | thunk
  deriving DecidableEq, Repr

def CallableRole.message : CallableRole → String
  | mapper => "mapper must be callable"
  | binder => "binder must be callable returning an Alternative"
  | programBinder => "binder must be callable returning a StateProgram"
  | traverse => "traverse expects a callable"
  | programModify => "Modify expects a callable"
  | modify => "modify expects a callable"
  | thunk => "catch expects a zero-argument callable"

inductive Grouping where
  | left
  | right
  deriving DecidableEq, Repr

def Grouping.text : Grouping → String
  | left => "choice"
  | right => "alt_or_right_assoc"

inductive Operator where
  | bar
  | power
  | atSign
  deriving DecidableEq, Repr

def Operator.text : Operator → String
  | bar => "|"
  | power => "** or pow()"
  | atSign => "@"

/-- A type that is found where another is wanted is given by its name. -/
inductive Fault (κ : Type) where
  | expectedAlternative (role : OperandRole) (found : String)
  | expectedCallable (role : CallableRole)
  | expectedResult (found : String)
  | expectedBinderProgram (found : String)
  | expectedWrappedProgram (found : String)
  | expectedProgram (found : String)
  | expectedRunnable (found : String)
  | expectedChild (found : String)
  | emptyChain (grouping : Grouping)
  | unknownProgram
  | unknownEffect
  | yieldedNonProgram (found : String)
  | yieldedNonAlternative (name : Option String) (found : String)
  | producedNonResult (found : String)
  | mappedErrorNotTree
  | chainedNonResult
  | unwrappedSuccess
  | failed (failure : ErrorTree (Value κ))
  | prematureSend
  | notCallable (found : String)
  | notIterable (found : String)
  | notUnpackable (found : String)
  | notSubscriptable (found : String)
  | tooFewToUnpack (count : Nat)
  | tooManyToUnpack
  | absentAttribute (found name : String)
  | absentKey (key : Value κ)
  | positionOutOfRange (found : String)
  | unsupportedOperands (operator : Operator) (left right : String)
  | notOrdered (left right : String)

namespace Fault

variable {κ : Type}

def exceptionClass : Fault κ → ExceptionClass
  | emptyChain _ | unknownEffect | tooFewToUnpack _ | tooManyToUnpack => .value
  | unwrappedSuccess => .runtime
  | failed _ => .alternativeFailure
  | absentAttribute _ _ => .absentAttribute
  | absentKey _ => .key
  | positionOutOfRange _ => .index
  | _ => .type

def message : Fault κ → String
  | expectedAlternative role found => role.text ++ " must be an Alternative; got " ++ found
  | expectedCallable role => role.message
  | expectedResult found => "lift_result expects a Result; got " ++ found
  | expectedBinderProgram found => "binder must return a StateProgram; got " ++ found
  | expectedWrappedProgram found => "Alternative wraps a StateProgram; got " ++ found
  | expectedProgram found => "Expected StateProgram, got " ++ found
  | expectedRunnable found => "Expected Alternative, got " ++ found
  | expectedChild found => "Expected ErrorTree child, got " ++ found
  | emptyChain grouping => grouping.text ++ " requires at least one alternative"
  | unknownProgram =>
      "Program " ++ (Program.foreign none : Program κ).repr ++
        " is neither a primitive effect nor a generator program"
  | unknownEffect => "Unknown effect: " ++ (Program.foreignEffect none : Program κ).repr
  | yieldedNonProgram found =>
      "Unknown yield type: " ++ found ++ "; generators must yield StateProgram instances"
  | yieldedNonAlternative name found =>
      "@do function " ++ Text.quoted (name.getD "<anonymous>") ++ " yielded " ++ found ++
        "; expected Alternative"
  | producedNonResult found => "Alternative program produced " ++ found ++ "; expected Result"
  | mappedErrorNotTree => "map_err must return an ErrorTree instance"
  | chainedNonResult => "and_then must return a Result instance"
  | unwrappedSuccess => "Called unwrap_err on Ok value"
  | failed failure =>
      "Alternative failed with " ++ toString failure.size ++ " recorded failure(s):\n" ++
        failure.render Value.repr "  "
  | prematureSend => "can't send non-None value to a just-started generator"
  | notCallable found => "'" ++ found ++ "' object is not callable"
  | notIterable found => "'" ++ found ++ "' object is not iterable"
  | notUnpackable found => "cannot unpack non-iterable " ++ found ++ " object"
  | notSubscriptable found => "'" ++ found ++ "' object is not subscriptable"
  | tooFewToUnpack count =>
      "not enough values to unpack (expected 2, got " ++ toString count ++ ")"
  | tooManyToUnpack => "too many values to unpack (expected 2)"
  | absentAttribute found name =>
      "'" ++ found ++ "' object has no attribute " ++ Text.quoted name
  | absentKey key => key.repr
  | positionOutOfRange found => found ++ " index out of range"
  | unsupportedOperands operator left right =>
      "unsupported operand type(s) for " ++ operator.text ++ ": '" ++ left ++ "' and '" ++ right ++
        "'"
  | notOrdered left right =>
      "'>' not supported between instances of '" ++ left ++ "' and '" ++ right ++ "'"

end Fault

end Backtrack
