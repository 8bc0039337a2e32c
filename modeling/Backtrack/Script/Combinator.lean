import Backtrack.Alternative.Run
import Backtrack.Script.Misuse
import Backtrack.Value.Operators

namespace Backtrack.Script

variable {τ : Type}

def classNamed : Value Code → Run ExceptionClass
  | .str name =>
      match ExceptionClass.ofText? name with
      | some c => pure c
      | none => Run.misuse .badOperand
  | _ => Run.misuse .badOperand

def classesNamed : Value Code → Run (List ExceptionClass)
  | .list names | .tuple names => names.mapM classNamed
  | name => do pure [← classNamed name]

def built (a : Except (Fault Code) (Alternative Code)) : Run (Value Code) :=
  Alternative.toValue <$> Exec.demand a

def programOf (p : Except (Fault Code) (Program Code)) : Run (Value Code) :=
  Value.program <$> Exec.demand p

def runnable : Value Code → Run (Alternative Code)
  | .alternative _ p => pure ⟨p⟩
  | other => Exec.fail (.expectedRunnable other.typeName)

def runFrom (host : Host Code τ Session) (fuel : Nat) (a user : Value Code) : Run (Value Code) := do
  (← runnable a).run host fuel user

def runFromPair (host : Host Code τ Session) (fuel : Nat) (a initial : Value Code) :
    Run (Value Code) := do
  let (result, user, aborted) ← (← runnable a).runPair host fuel initial
  pure (.pair result (.pair user aborted))

def runFromState (host : Host Code τ Session) (fuel : Nat) (p state : Value Code) :
    Run (Value Code) := do
  match p with
  | .program p =>
      let (value, final) ← p.run host fuel state
      pure (.pair value final)
  | other => Exec.fail (.expectedProgram other.typeName)

/-- The limit is a number, for which a truth value counts too. -/
def shortened (value limit : Value Code) : Run (Value Code) :=
  match limit.number? with
  | some n => pure (.str (value.shortRepr n))
  | none => Exec.fail (.notOrdered (Value.int 0 : Value Code).typeName limit.typeName)

/-- A function in do-notation taken from an instance gets it as its first argument, and is itself when
taken from none. A method stands for its function. -/
def received : Value Code → Value Code → Run (Value Code)
  | .callable (.doFunction f), receiver | .callable (.method f _), receiver =>
      match receiver with
      | .null => pure (.callable (.doFunction f))
      | receiver => pure (.callable (.method f receiver))
  | _, _ => Run.misuse .badOperand

def signatureOf : Value Code → Run (Value Code)
  | .callable (.doFunction f) | .callable (.method f _) =>
      let name : Value Code :=
        match f.name with
        | some name => .str name
        | none => .null
      pure (.list [name, .list (f.parameters.map .str)])
  | _ => Run.misuse .badOperand

def Combinator.perform (host : Host Code τ Session) (fuel : Nat) :
    Combinator → List (Value Code) → Run (Value Code)
  | .ok, [value] => pure (.ok value)
  | .err, [failure] => pure (.err failure)
  | .errorTree, [value] => pure (Value.leaf value)
  | .errorTree, [value, children] => Value.tree value <$> Exec.demand children.iterate
  | .leaf, [value] => pure (Value.leaf value)
  | .outcome, [result, state, aborted] => pure (.outcome result state aborted)
  | .wrap, [p] => built (Alternative.ofProgram p)
  | .inject, [value] => pure (Alternative.inject value).toValue
  | .liftResult, [result] => built (Alternative.ofLiftedResult result)
  | .bind, [computation, f] => built (Alternative.ofBind computation f)
  | .fmap, [f, computation] => built (Alternative.ofFmap f computation)
  | .apply, [f, computation] => built (Alternative.ofApply f computation)
  | .sequence, [computations] => built (Alternative.ofSequence computations)
  | .traverse, [items, f] => built (Alternative.ofTraverse items f)
  | .altOr, [first, second] => built (Alternative.ofAltOr first second)
  | .choice, operands => built (Alternative.ofChain .left operands)
  | .altOrRightAssoc, operands => built (Alternative.ofChain .right operands)
  | .choiceOf, [operands] => do
      built (Alternative.ofChain .left (← Exec.demand operands.iterate))
  | .altOrRightAssocOf, [operands] => do
      built (Alternative.ofChain .right (← Exec.demand operands.iterate))
  | .error, [failure] => pure (Alternative.error failure).toValue
  | .abort, [failure] => pure (Alternative.abort failure).toValue
  | .attempt, [thunk] => built (Alternative.ofAttempt thunk [.exception])
  | .attempt, [thunk, names] => do
      built (Alternative.ofAttempt thunk (← classesNamed names))
  | .get, [] => pure (Alternative.get : Alternative Code).toValue
  | .put, [user] => pure (Alternative.put user).toValue
  | .modify, [f] => built (Alternative.ofModify f)
  | .run, [a, user] => runFrom host fuel a user
  | .runPair, [a, initial] => runFromPair host fuel a initial
  | .runProgram, [p, state] => runFromState host fuel p state
  | .pureProgram, [value] => pure (.program (.pure value))
  | .getProgram, [] => pure (.program .get)
  | .putProgram, [state] => pure (.program (.put state))
  | .modifyProgram, [f] => programOf (Program.ofModify f)
  | .shortRepr, [value] => pure (.str (value.shortRepr Frame.noteLimit))
  | .shortRepr, [value, limit] => shortened value limit
  | .bar, [a, b] => Exec.demand (a.bar b)
  | .power, [a, b] => Exec.demand (a.power b)
  | .atSign, [a, b] => Exec.demand (a.mapOnto b)
  | .receive, [f, receiver] => received f receiver
  | .signature, [f] => signatureOf f
  | .foreignProgram, [] => pure (.program (.foreign none))
  | .foreignEffect, [] => pure (.program (.foreignEffect none))
  | _, _ => Run.misuse .badOperand

end Backtrack.Script
