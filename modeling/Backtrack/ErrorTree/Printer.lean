import Backtrack.ErrorTree.Walk

namespace Backtrack.ErrorTree

variable {α : Type}

def marker (tree : ErrorTree α) : String :=
  if tree.isLeaf then "-" else "+"

def trailLine (text : α → String) (indent : String) (entry : Nat × ErrorTree α) : String :=
  String.join (List.replicate entry.1 indent) ++ entry.2.marker ++ " " ++ text entry.2.value

def render (text : α → String) (indent : String) (tree : ErrorTree α) : String :=
  "\n".intercalate (tree.walk.map (trailLine text indent))

end Backtrack.ErrorTree
