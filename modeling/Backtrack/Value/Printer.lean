import Backtrack.Value.Basic
import Backtrack.Text.Quoted

namespace Backtrack

variable {κ : Type}

/-- Parentheses around items, with a comma after a single one. -/
def parenthesized : List String → String
  | [] => "()"
  | [item] => "(" ++ item ++ ",)"
  | items => "(" ++ ", ".intercalate items ++ ")"

def functionRepr (name : String) : String :=
  "<function " ++ name ++ " at 0x7f0000000000>"

/-- The name of the function that makes the generator of a program. -/
def Recipe.factoryName : Recipe κ → String
  | .map _ _ => "StateProgram.map.<locals>.factory"
  | .flatMap _ _ => "StateProgram.flat_map.<locals>.factory"
  | .bind _ _ => "bind.<locals>.factory"
  | .sequence _ => "sequence.<locals>.factory"
  | .traverse _ _ => "traverse.<locals>.factory"
  | .altOr _ _ => "alt_or.<locals>.factory"
  | .abort _ => "abort.<locals>.factory"
  | .body _ _ => "DoFunction.__call__.<locals>.factory"
  | .task _ _ => "state_do.<locals>.wrapper.<locals>.<lambda>"

def DoFunction.repr (f : DoFunction κ) : String :=
  "<do " ++ f.name.getD "<anonymous>" ++ ">"

mutual
def Value.repr : Value κ → String
  | .null => "None"
  | .bool true => "True"
  | .bool false => "False"
  | .int n => toString n
  | .str text => Text.quoted text
  | .list items => "[" ++ ", ".intercalate (Value.reprs items) ++ "]"
  | .tuple items => parenthesized (Value.reprs items)
  | .dict type entries => type.literal (Value.entryReprs entries)
  | .ok value => "Ok(value=" ++ value.repr ++ ")"
  | .err error => "Err(error=" ++ error.repr ++ ")"
  | .tree value children =>
      "ErrorTree(value=" ++ value.repr ++ ", children=" ++
        parenthesized (Value.reprs children) ++ ")"
  | .outcome result state aborted =>
      "RunResult(result=" ++ result.repr ++ ", state=" ++ state.repr ++ ", aborted=" ++
        aborted.repr ++ ")"
  | .program p => p.repr
  | .alternative _ p => "Alternative(program=" ++ p.repr ++ ")"
  | .callable f => f.repr

def Value.reprs : List (Value κ) → List String
  | [] => []
  | item :: rest => item.repr :: Value.reprs rest

def Value.entryReprs : List (Value κ × Value κ) → List (String × String)
  | [] => []
  | (key, value) :: rest => (key.repr, value.repr) :: Value.entryReprs rest

def Program.repr : Program κ → String
  | .pure value => "PureEffect(value=" ++ value.repr ++ ")"
  | .get => "StateGetEffect()"
  | .put state => "StatePutEffect(state=" ++ state.repr ++ ")"
  | .modify f => "StateModifyEffect(func=" ++ f.repr ++ ")"
  | .generator _ r => "GeneratorState(factory=" ++ functionRepr r.factoryName ++ ")"
  | .foreign _ => "AlienProgram()"
  | .foreignEffect _ => "AlienEffect()"

def Mapper.repr : Mapper κ → String
  | .call f => f.repr
  | _ => functionRepr "<lambda>"

def Callable.repr : Callable κ → String
  | .code _ _ => functionRepr "fn"
  | .doFunction f => f.repr
  | .method f receiver => "<bound method " ++ f.name.getD "?" ++ " of " ++ receiver.repr ++ ">"
end

namespace Value

theorem repr_null : (null : Value κ).repr = "None" := rfl

theorem repr_bool (b : Bool) : (bool b : Value κ).repr = if b then "True" else "False" := by
  cases b <;> rfl

theorem repr_int (n : Int) : (int n : Value κ).repr = toString n := rfl

theorem repr_str (text : String) : (str text : Value κ).repr = Text.quoted text := rfl

theorem reprs_eq_map (items : List (Value κ)) : reprs items = items.map repr := by
  induction items with
  | nil => rfl
  | cons item rest ih => exact congrArg (item.repr :: ·) ih

theorem entryReprs_eq_map (entries : List (Value κ × Value κ)) :
    entryReprs entries = entries.map fun entry => (entry.1.repr, entry.2.repr) := by
  induction entries with
  | nil => rfl
  | cons entry rest ih => exact congrArg ((entry.1.repr, entry.2.repr) :: ·) ih

theorem repr_list (items : List (Value κ)) :
    (list items).repr = "[" ++ ", ".intercalate (items.map repr) ++ "]" := by
  rw [← reprs_eq_map]
  rfl

theorem repr_tuple (items : List (Value κ)) :
    (tuple items).repr = parenthesized (items.map repr) := by
  rw [← reprs_eq_map]
  rfl

theorem repr_dict (type : MappingType) (entries : List (Value κ × Value κ)) :
    (dict type entries).repr =
      type.literal (entries.map fun entry => (entry.1.repr, entry.2.repr)) := by
  rw [← entryReprs_eq_map]
  rfl

theorem repr_ok (value : Value κ) : (ok value).repr = "Ok(value=" ++ value.repr ++ ")" := rfl

theorem repr_err (error : Value κ) : (err error).repr = "Err(error=" ++ error.repr ++ ")" := rfl

theorem repr_tree (value : Value κ) (children : List (Value κ)) :
    (tree value children).repr = "ErrorTree(value=" ++ value.repr ++ ", children=" ++
      parenthesized (children.map repr) ++ ")" := by
  rw [← reprs_eq_map]
  rfl

end Value

end Backtrack
