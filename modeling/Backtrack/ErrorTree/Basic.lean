namespace Backtrack

inductive ErrorTree (α : Type) where
  | node (value : α) (children : List (ErrorTree α))

namespace ErrorTree

variable {α : Type}

def value : ErrorTree α → α
  | node value _ => value

def children : ErrorTree α → List (ErrorTree α)
  | node _ children => children

@[simp] theorem value_node (value : α) (children : List (ErrorTree α)) :
    (node value children).value = value := rfl

@[simp] theorem children_node (value : α) (children : List (ErrorTree α)) :
    (node value children).children = children := rfl

def leaf (value : α) : ErrorTree α := node value []

def isLeaf (tree : ErrorTree α) : Bool := tree.children.isEmpty

/-- The later failure becomes the last child. -/
def withChild : ErrorTree α → ErrorTree α → ErrorTree α
  | node value children, child => node value (children ++ [child])

instance [Inhabited α] : Inhabited (ErrorTree α) := ⟨leaf default⟩

end ErrorTree

end Backtrack
