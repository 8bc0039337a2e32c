import Backtrack.ErrorTree.Walk
import Backtrack.Value.Tree

namespace Backtrack

namespace ErrorTree

variable {α : Type}

theorem pendingCount_children_lt (depth : Nat) (value : α) (children : List (ErrorTree α))
    (pending : List (Nat × ErrorTree α)) :
    pendingCount (children.map fun child => (1, child)) <
      pendingCount ((depth, node value children) :: pending) := by
  simp [pendingCount, nodeCounts, nodeCount, Function.comp_def]
  omega

theorem pendingCount_append_lt (depth : Nat) (value : α) (children : List (ErrorTree α))
    (pending : List (Nat × ErrorTree α)) :
    pendingCount ((children.map fun child => (depth + 1, child)) ++ pending) <
      pendingCount ((depth, node value children) :: pending) := by
  simp [pendingCount, nodeCounts_append, nodeCounts, nodeCount, Function.comp_def]

theorem map_value_walkFrom (pending : List (Nat × ErrorTree α)) :
    (walkFrom pending).map (fun entry => entry.2.value) =
      (pending.map Prod.snd).flatMap values := by
  induction hCounted : pendingCount pending using Nat.strongRecOn generalizing pending with
  | ind count ih =>
  cases pending with
  | nil => simp
  | cons entry pending =>
      obtain ⟨depth, value, children⟩ := entry
      have hBelow := ih _ (hCounted ▸ pendingCount_children_lt depth value children pending) _ rfl
      have hRest := ih _ (hCounted ▸ pendingCount_append_lt depth value children pending) _ rfl
      have hRoot : values (node value children) = value :: children.flatMap values := by
        simpa [values, walk, walkFrom_cons, Function.comp_def] using hBelow
      simpa [walkFrom_cons, hRoot, Function.comp_def] using hRest

@[simp] theorem values_node (value : α) (children : List (ErrorTree α)) :
    values (node value children) = value :: children.flatMap values := by
  simp [values, walk, walkFrom_cons, map_value_walkFrom, Function.comp_def]

@[simp] theorem values_leaf (value : α) : values (leaf value) = [value] := by
  simp [leaf]

@[simp] theorem values_withChild (tree child : ErrorTree α) :
    values (tree.withChild child) = tree.values ++ child.values := by
  cases tree with
  | node value children => simp [withChild]

theorem values_ne_nil (tree : ErrorTree α) : tree.values ≠ [] := by
  cases tree with
  | node value children => simp

end ErrorTree

namespace Value

variable {κ : Type}

theorem ofTrees_append (first second : List (ErrorTree (Value κ))) :
    ofTrees (first ++ second) = ofTrees first ++ ofTrees second := by
  induction first with
  | nil => rfl
  | cons tree rest ih => simp [ofTrees, ih]

theorem ofTree_leaf (value : Value κ) : ofTree (.leaf value) = leaf value := by
  simp [ErrorTree.leaf, ofTree, ofTrees, leaf]

theorem ofTree_withChild (value : Value κ) (children : List (ErrorTree (Value κ)))
    (child : ErrorTree (Value κ)) :
    ofTree ((ErrorTree.node value children).withChild child) =
      .tree value (ofTrees children ++ [ofTree child]) := by
  simp [ErrorTree.withChild, ofTree, ofTrees, ofTrees_append]

theorem ofTree_inj {first second : ErrorTree (Value κ)} :
    ofTree first = ofTree second ↔ first = second := by
  constructor
  · intro hSame
    simpa using congrArg toTree hSame
  · rintro rfl
    rfl

end Value

end Backtrack
