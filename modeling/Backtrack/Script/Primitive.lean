import Backtrack.Result
import Backtrack.Script.Misuse

namespace Backtrack.Script

variable {τ : Type}

/-- A number in decimal notation with an optional sign. -/
def parseNumber? (text : List Char) : Option Int :=
  let digits? (cs : List Char) : Option Nat :=
    if cs.isEmpty || !cs.all Char.isDigit then none
    else some (cs.foldl (fun n c => n * 10 + (c.toNat - '0'.toNat)) 0)
  match text with
  | '-' :: cs => (digits? cs).map fun n => -Int.ofNat n
  | '+' :: cs => (digits? cs).map Int.ofNat
  | cs => (digits? cs).map Int.ofNat

def itemsOf : Value Code → Run (List (Value Code))
  | .list items | .tuple items => pure items
  | .str text => pure (text.toList.map fun c => .str (String.singleton c))
  | _ => Run.misuse .badOperand

def arithmetic (f : Int → Int → Int) : Value Code → Value Code → Run (Value Code)
  | .int a, .int b => pure (.int (f a b))
  | _, _ => Run.misuse .badOperand

/-- Division toward the lower number, and what it leaves. -/
def division (f : Int → Int → Int) : Value Code → Value Code → Run (Value Code)
  | .int a, .int b => if b = 0 then Run.misuse .divisionByZero else pure (.int (f a b))
  | _, _ => Run.misuse .badOperand

def sumOf : Value Code → Value Code → Run (Value Code)
  | .int a, .int b => pure (.int (a + b))
  | .str a, .str b => pure (.str (a ++ b))
  | .list a, .list b => pure (.list (a ++ b))
  | .tuple a, .tuple b => pure (.tuple (a ++ b))
  | _, _ => Run.misuse .badOperand

def lengthOf : Value Code → Run (Value Code)
  | .str text => pure (.int text.length)
  | .list items | .tuple items => pure (.int items.length)
  | _ => Run.misuse .badOperand

def itemAt (value : Value Code) : Value Code → Run (Value Code)
  | .int position => do
      let items ← itemsOf value
      if position < 0 then Run.misuse .indexOutOfRange
      else
        match items[position.toNat]? with
        | some item => pure item
        | none => Run.misuse .indexOutOfRange
  | _ => Run.misuse .badOperand

def dropFirst : Value Code → Value Code → Run (Value Code)
  | .str text, .int (.ofNat n) => pure (.str (String.ofList (text.toList.drop n)))
  | .list items, .int (.ofNat n) => pure (.list (items.drop n))
  | .tuple items, .int (.ofNat n) => pure (.tuple (items.drop n))
  | _, _ => Run.misuse .badOperand

def entryOf (value : Value Code) : Run (Value Code × Value Code) := do
  match ← itemsOf value with
  | [key, entry] => pure (key, entry)
  | _ => Run.misuse .badOperand

def isSingleDigit (text : String) : Bool :=
  match text.toList with
  | [c] => c.isDigit
  | _ => false

def raisedBy (c : ExceptionClass) (args : List (Value Code)) : Raised Code :=
  if c = .alternativeFailure then
    match args with
    | [tree] => .fault (Value.failureFault tree)
    | _ => (Misuse.failureArguments args.length).exception
  else .thrown c args

def frozendict : MappingType where
  name := "frozendict"
  literal entries :=
    "frozendict.frozendict(\x7b" ++
      ", ".intercalate (entries.map fun entry => entry.1 ++ ": " ++ entry.2) ++ "\x7d)"

namespace Primitive

def perform (host : Host Code τ Session) : Primitive → List (Value Code) → Run (Value Code)
  | .list, items => pure (.list items)
  | .tuple, items => pure (.tuple items)
  | .dict, entries => do
      let entries ← entries.mapM entryOf
      pure (.dict frozendict (entries.foldl (fun found entry =>
        Value.insertEntry entry.1 entry.2 found) []))
  | .add, [a, b] => sumOf a b
  | .subtract, [a, b] => arithmetic (· - ·) a b
  | .multiply, [a, b] => arithmetic (· * ·) a b
  | .divide, [a, b] => division Int.fdiv a b
  | .remainder, [a, b] => division Int.fmod a b
  | .less, [.int a, .int b] => pure (.bool (a < b))
  | .equal, [a, b] => pure (.bool (a.equals b))
  | .negate, [a] => pure (.bool !a.isTrue)
  | .truth, [a] => pure (.bool a.isTrue)
  | .length, [a] => lengthOf a
  | .index, [a, position] => itemAt a position
  | .drop, [a, n] => dropFirst a n
  | .text, [a] => Value.str <$> Exec.demand a.text
  | .literal, [a] => pure (.str a.repr)
  | .number, [.str written] =>
      match parseNumber? written.toList with
      | some n => pure (.int n)
      | none => Run.misuse (.notANumber written)
  | .isDigit, [.str written] => pure (.bool (isSingleDigit written))
  | .lookUp, [.dict _ entries, key] =>
      match Value.find? key entries with
      | some value => pure value
      | none => Run.misuse (.missingKey key)
  | .insert, [.dict type entries, key, value] =>
      pure (.dict type (Value.insertEntry key value entries))
  | .log, [value] => do
      modify fun world =>
        { world with host := { world.host with trace := world.host.trace.push value } }
      pure value
  | .inOrder, values => pure (values.getLastD .null)
  | .range, [.int n] => pure (.list ((List.range n.toNat).map fun i => .int (Int.ofNat i)))
  | .fold, [items, first, f] => do
      (← itemsOf items).foldlM (fun collected item => host.callValue f [collected, item]) first
  | .each, [items, f] => do
      let results ← (← itemsOf items).mapM fun item => host.callValue f [item]
      pure (.list results)
  | .call, f :: args => host.callValue f args
  | .raise, .str name :: args =>
      match ExceptionClass.ofText? name with
      | some c => Exec.raise (raisedBy c args)
      | none => Run.misuse .badOperand
  | _, _ => Run.misuse .badOperand

end Primitive

end Backtrack.Script
