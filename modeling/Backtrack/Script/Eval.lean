import Backtrack.Script.Member
import Backtrack.Script.Primitive

namespace Backtrack.Script

variable {τ : Type}

def lookUp (scope : Scope) (name : String) : Run (Value Code) := do
  match scope.lookup name with
  | some value => pure value
  | none =>
      match (← get).host.globals.lookup name with
      | some value => pure value
      | none => Run.misuse (.unbound name)

def Operation.perform (host : Host Code τ Session) (fuel : Nat) :
    Operation → List (Value Code) → Run (Value Code)
  | .primitive p, args => p.perform host args
  | .combinator c, args => c.perform host fuel args
  | .member m, args => m.perform host fuel args

/-- The name by which a function complains of its arguments. -/
def calledName : Option String → String
  | none | some "" => "anonymous"
  | some name => name

mutual
def Expr.eval (host : Host Code τ Session) (fuel : Nat) (scope : Scope) :
    Expr → Run (Value Code)
  | .null => pure .null
  | .bool b => pure (.bool b)
  | .int n => pure (.int n)
  | .str text => pure (.str text)
  | .variable name => lookUp scope name
  | .conditional condition whenTrue whenFalse => do
      if (← condition.eval host fuel scope).isTrue then whenTrue.eval host fuel scope
      else whenFalse.eval host fuel scope
  | .letIn name bound body => do
      let value ← bound.eval host fuel scope
      body.eval host fuel ((name, value) :: scope)
  | .function parameters body =>
      Exec.giveOut (.callable (.code none (.mk "fn" parameters (.expression body) scope)))
  | .doFunction name parameters body =>
      let code := Code.mk (calledName name) parameters body scope
      Exec.giveOut (.callable (.doFunction ⟨none, name, parameters, code⟩))
  | .programFunction name parameters body =>
      let code := Code.mk (calledName name) parameters (.statements body) scope
      Exec.giveOut (.callable (.code none code))
  | .generator body =>
      Exec.giveOut
        (.program (.generator none (.task (.mk "generator" [] (.statements body) scope) [])))
  | .operation op args => do
      op.perform host fuel (← Expr.evalAll host fuel scope args) >>= Exec.giveOut

def Expr.evalAll (host : Host Code τ Session) (fuel : Nat) (scope : Scope) :
    List Expr → Run (List (Value Code))
  | [] => pure []
  | e :: rest => do
      let value ← e.eval host fuel scope
      let values ← Expr.evalAll host fuel scope rest
      pure (value :: values)
end

end Backtrack.Script
