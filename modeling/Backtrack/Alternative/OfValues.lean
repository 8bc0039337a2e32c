import Backtrack.Alternative.Basic
import Backtrack.Value.Access

namespace Backtrack

variable {κ : Type}

namespace Value

def alternativeFor (role : OperandRole) : Value κ → Except (Fault κ) (Alternative κ)
  | alternative _ p => .ok ⟨p⟩
  | other => .error (.expectedAlternative role other.typeName)

def callableFor (role : CallableRole) : Value κ → Except (Fault κ) (Callable κ)
  | callable f => .ok f
  | _ => .error (.expectedCallable role)

end Value

namespace Program

def map (p : Program κ) (f : Callable κ) : Program κ := .generator none (.map p (.call f))

def flatMap (p : Program κ) (f : Callable κ) : Program κ := .generator none (.flatMap p f)

def ofMap (p : Program κ) (f : Value κ) : Except (Fault κ) (Program κ) := do
  let f ← f.callableFor .mapper
  .ok (p.map f)

def ofFlatMap (p : Program κ) (f : Value κ) : Except (Fault κ) (Program κ) := do
  let f ← f.callableFor .programBinder
  .ok (p.flatMap f)

def ofModify (f : Value κ) : Except (Fault κ) (Program κ) := do
  let f ← f.callableFor .programModify
  .ok (.modify (.call f))

end Program

namespace Alternative

def ofProgram : Value κ → Except (Fault κ) (Alternative κ)
  | .program p => .ok ⟨p⟩
  | other => .error (.expectedWrappedProgram other.typeName)

def ofLiftedResult : Value κ → Except (Fault κ) (Alternative κ)
  | .ok value => .ok (ofResult (.ok value))
  | .err failure => .ok (ofResult (.err failure))
  | other => .error (.expectedResult other.typeName)

def ofModify (f : Value κ) : Except (Fault κ) (Alternative κ) := do
  let f ← f.callableFor .modify
  .ok (modify f)

def ofAttempt (thunk : Value κ) (classes : List ExceptionClass) :
    Except (Fault κ) (Alternative κ) := do
  let thunk ← thunk.callableFor .thunk
  .ok (attempt thunk classes)

def ofBind (computation f : Value κ) : Except (Fault κ) (Alternative κ) := do
  let computation ← computation.alternativeFor .bindSource
  let f ← f.callableFor .binder
  .ok (bind computation f)

def ofFmap (f computation : Value κ) : Except (Fault κ) (Alternative κ) := do
  let f ← f.callableFor .mapper
  let computation ← computation.alternativeFor .bindSource
  .ok (fmap f computation)

def ofApply (f computation : Value κ) : Except (Fault κ) (Alternative κ) := do
  let computation ← computation.alternativeFor .applyArgument
  let f ← f.alternativeFor .bindSource
  .ok (apply f computation)

def ofSequence (computations : Value κ) : Except (Fault κ) (Alternative κ) := do
  let items ← computations.iterate
  let computations ← items.mapM (Value.alternativeFor .sequenceElement)
  .ok (sequence computations)

def ofTraverse (items f : Value κ) : Except (Fault κ) (Alternative κ) := do
  let f ← f.callableFor .traverse
  let items ← items.iterate
  .ok (traverse items f)

def ofAltOr (first second : Value κ) : Except (Fault κ) (Alternative κ) := do
  let first ← first.alternativeFor .leftOperand
  let second ← second.alternativeFor .rightOperand
  .ok (altOr first second)

def ofChain (grouping : Grouping) (operands : List (Value κ)) :
    Except (Fault κ) (Alternative κ) := do
  match ← operands.mapM (Value.alternativeFor .chainElement) with
  | [] => .error (.emptyChain grouping)
  | first :: others =>
      match grouping with
      | .left => .ok (choice first others)
      | .right => .ok (altOrRightAssoc first others)

end Alternative

end Backtrack
