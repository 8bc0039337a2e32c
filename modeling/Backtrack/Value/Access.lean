import Backtrack.Fault
import Backtrack.Value.Equality
import Backtrack.Value.Tree

namespace Backtrack.Value

variable {κ : Type}

/-- What a value says that is asked for a part which it does not have. -/
def lacks (name : String) (value : Value κ) : Fault κ :=
  .absentAttribute value.ownerName name

/-- The failure tree of a value that is asked for `name`, a part that every tree has. What a descendant
says that is no tree is given by `stray`. -/
def treeFor (name : String) (stray : Value κ → Fault κ) :
    Value κ → Except (Fault κ) (ErrorTree (Value κ))
  | tree value children => (toTree (tree value children)).mapError stray
  | other => .error (other.lacks name)

/-- The exception that asking a failed computation for its value raises. -/
def failureFault (error : Value κ) : Fault κ :=
  match error.treeFor "size" (lacks "children") with
  | .ok failure => .failed failure
  | .error fault => fault

def error? : Value κ → Except (Fault κ) (Value κ)
  | err error => .ok error
  | other => .error (other.lacks "error")

/-- The part named `value`. An outcome has the value of a successful result only. -/
def value? : Value κ → Except (Fault κ) (Value κ)
  | ok value => .ok value
  | tree value _ => .ok value
  | program (.pure value) => .ok value
  | outcome (ok value) _ _ => .ok value
  | outcome result _ _ => do .error (failureFault (← result.error?))
  | other => .error (other.lacks "value")

/-- What a value that is no tree says when its value and then its children are asked for. -/
def lacksNode (stray : Value κ) : Fault κ :=
  match stray.value? with
  | .ok _ => stray.lacks "children"
  | .error fault => fault

/-- The items that iteration visits: the items of a list or tuple, the characters of a text, the keys
of a dictionary. -/
def items? : Value κ → Option (List (Value κ))
  | list items | tuple items => some items
  | str text => some (text.toList.map fun c => str (String.singleton c))
  | dict _ entries => some (entries.map Prod.fst)
  | _ => none

def iterate (value : Value κ) : Except (Fault κ) (List (Value κ)) :=
  match value.items? with
  | some items => .ok items
  | none => .error (.notIterable value.typeName)

/-- Exactly two items. -/
def unpackPair (value : Value κ) : Except (Fault κ) (Value κ × Value κ) :=
  match value.items? with
  | some [first, second] => .ok (first, second)
  | some (_ :: _ :: _ :: _) => .error .tooManyToUnpack
  | some items => .error (.tooFewToUnpack items.length)
  | none => .error (.notUnpackable value.typeName)

@[simp] theorem unpackPair_pair (first second : Value κ) :
    unpackPair (pair first second) = .ok (first, second) := rfl

def item (position : Nat) : Value κ → Except (Fault κ) (Value κ)
  | list items =>
      match items[position]? with
      | some found => .ok found
      | none => .error (.positionOutOfRange "list")
  | tuple items =>
      match items[position]? with
      | some found => .ok found
      | none => .error (.positionOutOfRange "tuple")
  | str text =>
      match text.toList[position]? with
      | some c => .ok (str (String.singleton c))
      | none => .error (.positionOutOfRange "string")
  | dict _ entries =>
      match find? (int position) entries with
      | some found => .ok found
      | none => .error (.absentKey (int position))
  | other => .error (.notSubscriptable other.typeName)

@[simp] theorem item_zero_pair (first second : Value κ) :
    item 0 (pair first second) = .ok first := rfl

@[simp] theorem item_one_pair (first second : Value κ) :
    item 1 (pair first second) = .ok second := rfl

def withChild (parent child : Value κ) : Except (Fault κ) (Value κ) :=
  match parent with
  | tree value children =>
      match child with
      | tree _ _ => .ok (tree value (children ++ [child]))
      | other => .error (.expectedChild other.typeName)
  | other => .error (other.lacks "with_child")

end Backtrack.Value
