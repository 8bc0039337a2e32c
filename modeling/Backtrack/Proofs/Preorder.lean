import Backtrack.Proofs.Outline
import Backtrack.Value.Access
import Mathlib.Algebra.GroupWithZero.Nat
import Mathlib.Data.List.Fold
import Mathlib.Data.List.MinMax
import Mathlib.Order.Bounds.Image
import Mathlib.Order.Nat

namespace Backtrack.ErrorTree

variable {α : Type}

def lowered {β : Type} (levels : Nat) (entry : Nat × β) : Nat × β :=
  (entry.1 + levels, entry.2)

@[simp] theorem lowered_fst {β : Type} (levels : Nat) (entry : Nat × β) :
    (lowered levels entry).1 = entry.1 + levels := rfl

@[simp] theorem lowered_zero {β : Type} : lowered (β := β) 0 = id := rfl

theorem lowered_lowered {β : Type} (first second : Nat) (entry : Nat × β) :
    lowered second (lowered first entry) = lowered (second + first) entry := by
  simp [lowered, Nat.add_comm, Nat.add_left_comm]

mutual
/-- The nodes of a tree with their depths, each node before those below it. -/
def preorder : ErrorTree α → List (Nat × ErrorTree α)
  | node value children => (0, node value children) :: (preorders children).map (lowered 1)

def preorders : List (ErrorTree α) → List (Nat × ErrorTree α)
  | [] => []
  | tree :: rest => preorder tree ++ preorders rest
end

theorem preorders_eq (trees : List (ErrorTree α)) : preorders trees = trees.flatMap preorder := by
  induction trees with
  | nil => rfl
  | cons tree rest ih => rw [preorders, ih, List.flatMap_cons]

theorem preorder_node (value : α) (children : List (ErrorTree α)) :
    preorder (node value children) =
      (0, node value children) :: children.flatMap fun child => child.preorder.map (lowered 1) := by
  rw [preorder, preorders_eq, List.map_flatMap]

/-- The trees still to be visited are walked one after the other, each at its own depth. -/
theorem walkFrom_eq_flatMap_preorder (pending : List (Nat × ErrorTree α)) :
    walkFrom pending = pending.flatMap fun entry => entry.2.preorder.map (lowered entry.1) := by
  induction pending using visitInduction with
  | done => simp
  | visit depth value children pending ih =>
      have hRoot : lowered depth (0, node value children) = (depth, node value children) := by
        simp [lowered]
      rw [walkFrom_cons, ih, List.flatMap_cons, preorder_node, List.map_cons, hRoot, List.cons_append,
        List.flatMap_append, List.flatMap_map, List.map_flatMap]
      simp only [List.map_map, Function.comp_def, lowered_lowered]

theorem walk_eq_preorder (tree : ErrorTree α) : tree.walk = tree.preorder := by
  simp [walk, walkFrom_eq_flatMap_preorder]

theorem walk_node (value : α) (children : List (ErrorTree α)) :
    walk (node value children) =
      (0, node value children) :: children.flatMap fun child => child.walk.map (lowered 1) := by
  simp only [walk_eq_preorder, preorder_node]

theorem length_walkFrom (pending : List (Nat × ErrorTree α)) :
    (walkFrom pending).length = pendingCount pending := by
  induction pending using visitInduction with
  | done => simp [pendingCount, nodeCounts]
  | visit depth value children pending ih =>
      rw [walkFrom_cons, List.length_cons, ih]
      simp [pendingCount, nodeCounts_append, nodeCounts, nodeCount, Function.comp_def]
      omega

theorem size_eq_nodeCount (tree : ErrorTree α) : tree.size = tree.nodeCount := by
  simp [size, walk, length_walkFrom, pendingCount, nodeCounts]

theorem size_node (value : α) (children : List (ErrorTree α)) :
    size (node value children) = 1 + (children.map size).sum := by
  simp only [size, walk_node, List.length_cons, List.length_flatMap, List.length_map]
  exact Nat.add_comm _ _

theorem size_withChild (tree child : ErrorTree α) :
    (tree.withChild child).size = tree.size + child.size := by
  cases tree with
  | node value children => simp [withChild, size_node, Nat.add_assoc]

theorem outline_node (value : α) (children : List (ErrorTree α)) :
    outline (node value children) =
      (0, value) :: children.flatMap fun child => child.outline.map (lowered 1) := by
  simp only [outline, walk_node, List.map_cons, value_node, List.map_flatMap, List.map_map]
  rfl

theorem outline_withChild (tree child : ErrorTree α) :
    (tree.withChild child).outline = tree.outline ++ child.outline.map (lowered 1) := by
  cases tree with
  | node value children => simp [withChild, outline_node]

theorem outline_ne_nil (tree : ErrorTree α) : tree.outline ≠ [] := by
  cases tree with
  | node value children => simp [outline_node]

def depths (tree : ErrorTree α) : Set Nat :=
  {depth | depth ∈ tree.outline.map Prod.fst}

theorem mem_depths {tree : ErrorTree α} {depth : Nat} :
    depth ∈ tree.depths ↔ ∃ entry ∈ tree.walk, entry.1 = depth := by
  simp [depths, outline]

theorem depths_withChild (tree child : ErrorTree α) :
    (tree.withChild child).depths = tree.depths ∪ (1 + ·) '' child.depths := by
  ext depth
  simp [depths, outline_withChild, Nat.add_comm]

theorem isGreatest_depth (tree : ErrorTree α) : IsGreatest tree.depths tree.depth := by
  have hFolded : tree.depth = (tree.outline.map Prod.fst).foldr max ⊥ := by
    simp [depth, outline, List.foldl_eq_foldr, Function.comp_def]
  have hNonempty : tree.outline.map Prod.fst ≠ [] := by simp [outline_ne_nil]
  rw [hFolded]
  constructor
  · exact List.maximum_mem (List.foldr_max_of_ne_nil hNonempty).symm
  · exact fun depth hAmong => List.le_max_of_le hAmong (Nat.le_refl depth)

theorem depth_withChild (tree child : ErrorTree α) :
    (tree.withChild child).depth = max tree.depth (1 + child.depth) := by
  have hDeeper : Monotone (1 + · : Nat → Nat) := fun _ _ hBelow => Nat.add_le_add_left hBelow 1
  apply (isGreatest_depth (tree.withChild child)).unique
  rw [depths_withChild]
  exact (isGreatest_depth tree).union (hDeeper.map_isGreatest (isGreatest_depth child))

/-- There is a way from the root of the tree down to a leaf, along so many edges. -/
inductive LeafAt : ErrorTree α → Nat → Prop where
  | here (value : α) : LeafAt (node value []) 0
  | under {value : α} {children : List (ErrorTree α)} {child : ErrorTree α} {length : Nat} :
      child ∈ children → LeafAt child length → LeafAt (node value children) (length + 1)

theorem exists_leafAt : (tree : ErrorTree α) → ∃ length, tree.LeafAt length
  | node value [] => ⟨0, .here value⟩
  | node _ (child :: _) =>
      let ⟨length, hLeaf⟩ := exists_leafAt child
      ⟨length + 1, .under (.head _) hLeaf⟩

theorem mem_walk_node {value : α} {children : List (ErrorTree α)} {entry : Nat × ErrorTree α} :
    entry ∈ walk (node value children) ↔
      entry = (0, node value children) ∨
        ∃ child ∈ children, ∃ inner ∈ child.walk, lowered 1 inner = entry := by
  simp [walk_node, List.mem_flatMap, List.mem_map]

theorem LeafAt.mem_depths {tree : ErrorTree α} {length : Nat} (hLeaf : tree.LeafAt length) :
    length ∈ tree.depths := by
  rw [ErrorTree.mem_depths]
  induction hLeaf with
  | here value => exact ⟨_, mem_walk_node.mpr (.inl rfl), rfl⟩
  | under hAmong _ ih =>
      obtain ⟨inner, hMet, rfl⟩ := ih
      exact ⟨_, mem_walk_node.mpr (.inr ⟨_, hAmong, inner, hMet, rfl⟩), rfl⟩

theorem leafAt_of_mem_walk : (tree : ErrorTree α) → {entry : Nat × ErrorTree α} → {length : Nat} →
    entry ∈ tree.walk → entry.2.LeafAt length → tree.LeafAt (entry.1 + length)
  | node value children, entry, length, hMet, hLeaf => by
      obtain rfl | ⟨child, hAmong, inner, hReached, rfl⟩ := mem_walk_node.mp hMet
      · simpa using hLeaf
      · have hDeeper : LeafAt (node value children) (inner.1 + length + 1) :=
          .under hAmong (leafAt_of_mem_walk child hReached hLeaf)
        rwa [Nat.add_right_comm] at hDeeper
termination_by tree => tree

theorem isGreatest_leafAt (tree : ErrorTree α) : IsGreatest {length | tree.LeafAt length} tree.depth := by
  obtain ⟨hDeepest, hBounded⟩ := isGreatest_depth tree
  constructor
  · obtain ⟨entry, hMet, hAt_depth⟩ := mem_depths.mp hDeepest
    obtain ⟨length, hLeaf⟩ := exists_leafAt entry.2
    have hWay := leafAt_of_mem_walk tree hMet hLeaf
    -- A node of the greatest depth has no way further down.
    have hEnds : length = 0 := by
      have := hBounded hWay.mem_depths
      omega
    rwa [hEnds, Nat.add_zero, hAt_depth] at hWay
  · exact fun length hLeaf => hBounded (LeafAt.mem_depths hLeaf)

theorem ofTree_withChild_eq_ok {κ : Type} (tree child : ErrorTree (Value κ)) :
    (Value.ofTree tree).withChild (Value.ofTree child) = .ok (Value.ofTree (tree.withChild child)) := by
  obtain ⟨value, children⟩ := tree
  obtain ⟨last, grandchildren⟩ := child
  rw [Value.ofTree_withChild, Value.ofTree, Value.ofTree, Value.withChild]

/-- The walk ends, after one visit of each node, and is the recursive preorder: the root, then child by
child the walks of these, a level deeper. So its measures can be taken part by part. A child that is
appended comes last in the values and in the outline, adds its size, and reaches a level deeper than by
itself; and what is deepest is the longest way down to a leaf. -/
theorem walk_by_parts {κ : Type} :
    (∀ tree : ErrorTree α, tree.walk = tree.preorder ∧ tree.walk.length = tree.nodeCount) ∧
      (∀ (value : α) (children : List (ErrorTree α)),
        walk (node value children) =
            (0, node value children) :: children.flatMap (fun child => child.walk.map (lowered 1)) ∧
          size (node value children) = 1 + (children.map size).sum) ∧
      (∀ tree : ErrorTree α, IsGreatest {length | tree.LeafAt length} tree.depth) ∧
      (∀ tree child : ErrorTree α,
        (tree.withChild child).values = tree.values ++ child.values ∧
          (tree.withChild child).size = tree.size + child.size ∧
          (tree.withChild child).depth = max tree.depth (1 + child.depth) ∧
          (tree.withChild child).outline = tree.outline ++ child.outline.map (lowered 1)) ∧
      ∀ tree child : ErrorTree (Value κ),
        (Value.ofTree tree).withChild (Value.ofTree child) = .ok (Value.ofTree (tree.withChild child)) :=
  ⟨fun tree => ⟨walk_eq_preorder tree, size_eq_nodeCount tree⟩,
    fun value children => ⟨walk_node value children, size_node value children⟩, isGreatest_leafAt,
    fun tree child => ⟨values_withChild tree child, size_withChild tree child,
      depth_withChild tree child, outline_withChild tree child⟩, ofTree_withChild_eq_ok⟩

end Backtrack.ErrorTree
