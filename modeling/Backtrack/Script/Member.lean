import Backtrack.Result
import Backtrack.Script.Combinator

namespace Backtrack.Script

variable {τ : Type}

def count (n : Nat) : Value Code := .int (Int.ofNat n)

def absent (object : Value Code) (m : Member) : Run (Value Code) :=
  Exec.fail (object.lacks m.text)

def resultMember (host : Host Code τ Session) (object : Value Code) :
    Member → List (Value Code) → Run (Value Code)
  | .isOk, [] => pure (.bool object.isOk)
  | .isErr, [] => pure (.bool object.isErr)
  | .ok, [] => pure object.successOrNull
  | .err, [] => pure object.failureOrNull
  | .unwrap, [] => Exec.demand object.unwrap
  | .unwrapErr, [] => Exec.demand object.unwrapErr
  | .map, [f] => object.mapSuccess host f
  | .mapErr, [f] => object.mapFailure host f
  | .unwrapOr, [substitute] => pure (object.unwrapOr substitute)
  | .unwrapOrElse, [f] => object.unwrapOrElse host f
  | .andThen, [f] => object.chain host f
  | .value, [] => Exec.demand object.value?
  | .error, [] => Exec.demand object.error?
  | m, _ => absent object m

def treeMember (value : Value Code) (children : List (Value Code)) :
    Member → List (Value Code) → Run (Value Code)
  | .value, [] => pure value
  | .children, [] => pure (.tuple children)
  | .isLeaf, [] => pure (.bool children.isEmpty)
  | .leaf, [failure] => pure (Value.leaf failure)
  | .withChild, [child] => Exec.demand ((Value.tree value children).withChild child)
  | .walk, [] => do
      let found ← tree (Value.lacks "children")
      pure (.list (found.walk.map fun entry => .pair (count entry.1) (Value.ofTree entry.2)))
  | .values, [] => do
      let found ← tree Value.lacksNode
      pure (.list found.values)
  | .size, [] => do
      let found ← tree (Value.lacks "children")
      pure (count found.size)
  | .depth, [] => do
      let found ← tree (Value.lacks "children")
      pure (count found.depth)
  | .render, [] => do
      let found ← tree (Value.lacks "is_leaf")
      pure (.str (found.render Value.repr "  "))
  | .render, [.str indent] => do
      let found ← tree (Value.lacks "is_leaf")
      pure (.str (found.render Value.repr indent))
  | m, _ => absent (.tree value children) m
where
  tree (stray : Value Code → Fault Code) : Run (ErrorTree (Value Code)) :=
    Exec.demand ((Value.tree value children).toTree.mapError stray)

def programMember (p : Program Code) : Member → List (Value Code) → Run (Value Code)
  | .map, [f] => programOf (p.ofMap f)
  | .flatMap, [f] | .andThen, [f] => programOf (p.ofFlatMap f)
  | .pure, [value] => pure (.program (.pure value))
  | .value, [] => Exec.demand (Value.program p).value?
  | .state, [] =>
      match p with
      | .put state => pure state
      | other => absent (.program other) .state
  | m, _ => absent (.program p) m

def alternativeMember (host : Host Code τ Session) (fuel : Nat) (p : Program Code) :
    Member → List (Value Code) → Run (Value Code)
  | .program, [] => pure (.program p)
  | .map, [f] => built (Alternative.ofFmap f (.alternative none p))
  | .flatMap, [f] | .andThen, [f] => built (Alternative.ofBind (.alternative none p) f)
  | .apply, [argument] => built (Alternative.ofApply (.alternative none p) argument)
  | .orElse, [other] => built (Alternative.ofAltOr (.alternative none p) other)
  | .run, [user] => runFrom host fuel (.alternative none p) user
  | .pure, [value] => pure (Alternative.inject value).toValue
  | m, _ => absent (.alternative none p) m

def outcomeMember (result state aborted : Value Code) :
    Member → List (Value Code) → Run (Value Code)
  | .result, [] => pure result
  | .state, [] => pure state
  | .aborted, [] => pure aborted
  | .value, [] => Exec.demand (Value.outcome result state aborted).value?
  | .errorTree, [] => pure result.failureOrNull
  | .finalState, [] => pure (.pair state aborted)
  | .isOk, [] => pure (.bool result.isOk)
  | .isErr, [] => pure (.bool result.isErr)
  | .display, [] => Value.str <$> Exec.demand ((Value.outcome result state aborted).display "  ")
  | .display, [.str indent] =>
      Value.str <$> Exec.demand ((Value.outcome result state aborted).display indent)
  | m, _ => absent (.outcome result state aborted) m

def Member.perform (host : Host Code τ Session) (fuel : Nat) (m : Member) :
    List (Value Code) → Run (Value Code)
  | .ok v :: args => resultMember host (.ok v) m args
  | .err e :: args => resultMember host (.err e) m args
  | .tree v below :: args => treeMember v below m args
  | .program p :: args => programMember p m args
  | .alternative _ p :: args => alternativeMember host fuel p m args
  | .outcome r s a :: args => outcomeMember r s a m args
  | object :: _ => absent object m
  | [] => Run.misuse .badOperand

end Backtrack.Script
