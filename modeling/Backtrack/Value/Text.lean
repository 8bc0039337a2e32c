import Backtrack.Text.Abbreviated
import Backtrack.Text.Lines
import Backtrack.Value.Access

/-! The text of a value: a text stands for itself, a tree shows in compact form on one line, an outcome
shows as a report of its run, and every other value shows in its literal form. -/

namespace Backtrack

variable {κ : Type}

def statusLines (indent : String) (result : Value κ) : Except (Fault κ) (List String) :=
  match result with
  | .ok value => .ok ["Status: ok", "Value: " ++ value.repr]
  | other => do
      let error ← other.error?
      let failure ← error.treeFor "size" (Value.lacks "children")
      let trail := failure.render Value.repr indent
      .ok (["Status: error", "Failures recorded: " ++ toString failure.size, "Error tree:"] ++
        (Text.lines trail).map (indent ++ ·))

def rule : String := String.ofList (List.replicate 60 '=')

def report (status : List String) (state : Value κ) (aborted : String) : String :=
  "\n".intercalate ([rule, "Alternative RunResult", rule] ++ status ++
    ["State: " ++ state.repr, "Aborted: " ++ aborted])

mutual
def Value.text : Value κ → Except (Fault κ) String
  | .str text => .ok text
  | .tree value children => do
      let inner ← Value.texts children
      .ok ("\x7b " ++ value.repr ++ ": [" ++ ", ".intercalate inner ++ "] \x7d")
  | .outcome result state aborted => do
      let status ← statusLines "  " result
      .ok (report status state (← aborted.text))
  | value => .ok value.repr

def Value.texts : List (Value κ) → Except (Fault κ) (List String)
  | [] => .ok []
  | value :: rest => do
      let text ← value.text
      .ok (text :: (← Value.texts rest))
end

theorem Value.text_tree {value : Value κ} {children : List (Value κ)} {inner : List String}
    (hShown : texts children = .ok inner) :
    (tree value children).text =
      .ok ("\x7b " ++ value.repr ++ ": [" ++ ", ".intercalate inner ++ "] \x7d") := by
  show (texts children >>= fun inner => _) = _
  rw [hShown]
  rfl

theorem Value.texts_cons {value : Value κ} {rest : List (Value κ)} {text : String}
    {others : List String} (hShown : value.text = .ok text) (hOthersShown : texts rest = .ok others) :
    texts (value :: rest) = .ok (text :: others) := by
  show (value.text >>= fun text => texts rest >>= fun others => _) = _
  rw [hShown, hOthersShown]
  rfl

/-- The report of an outcome, each level of a tree indented by `indent`. -/
def Value.display (indent : String) : Value κ → Except (Fault κ) String
  | .outcome result state aborted => do
      let status ← statusLines indent result
      .ok (report status state (← aborted.text))
  | other => .error (other.lacks "display")

/-- The literal form cut to a limit, for log lines. -/
def Value.shortRepr (value : Value κ) (limit : Int) : String :=
  Text.abbreviated limit value.repr

end Backtrack
