import Backtrack.Value.Basic
import Backtrack.ErrorTree.Basic

namespace Backtrack.Value

variable {κ : Type}

mutual
def toTree : Value κ → Except (Value κ) (ErrorTree (Value κ))
  | .tree value children =>
      match toTrees children with
      | .ok trees => .ok (.node value trees)
      | .error stray => .error stray
  | stray => .error stray

def toTrees : List (Value κ) → Except (Value κ) (List (ErrorTree (Value κ)))
  | [] => .ok []
  | child :: rest =>
      match toTree child with
      | .error stray => .error stray
      | .ok first =>
          match toTrees rest with
          | .ok trees => .ok (first :: trees)
          | .error stray => .error stray
end

mutual
def ofTree : ErrorTree (Value κ) → Value κ
  | .node value children => .tree value (ofTrees children)

def ofTrees : List (ErrorTree (Value κ)) → List (Value κ)
  | [] => []
  | child :: rest => ofTree child :: ofTrees rest
end

mutual
@[simp] theorem toTree_ofTree (tree : ErrorTree (Value κ)) : toTree (ofTree tree) = .ok tree := by
  cases tree with
  | node value children => simp [ofTree, toTree, toTrees_ofTrees children]

@[simp] theorem toTrees_ofTrees (trees : List (ErrorTree (Value κ))) :
    toTrees (ofTrees trees) = .ok trees := by
  cases trees with
  | nil => rfl
  | cons tree rest => simp [ofTrees, toTrees, toTree_ofTree tree, toTrees_ofTrees rest]
end

end Backtrack.Value
