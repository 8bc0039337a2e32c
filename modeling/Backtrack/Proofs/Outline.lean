import Backtrack.Proofs.TrialOrder
import Backtrack.Value.Equality
import Mathlib.Data.List.Chain
import Mathlib.Data.List.TakeWhile

/-! The outline of a tree is its walk with the nodes reduced to their values. It determines the
tree: read from its end, each entry takes as its children the trees gathered after it that lie one
level deeper. So every visit of the walk is undone by one step of the reading.

The pending trees of the walk and the gathered trees of the reading keep one invariant, `Below`. -/

namespace Backtrack.ErrorTree

variable {α : Type}

/-- Induction along the visits of a walk. -/
theorem visitInduction {motive : List (Nat × ErrorTree α) → Prop} (done : motive [])
    (visit : ∀ depth value children pending,
      motive (children.map (fun child => (depth + 1, child)) ++ pending) →
        motive ((depth, node value children) :: pending))
    (pending : List (Nat × ErrorTree α)) : motive pending := by
  induction hCounted : pendingCount pending using Nat.strongRecOn generalizing pending with
  | ind count ih =>
  cases pending with
  | nil => exact done
  | cons entry pending =>
      obtain ⟨depth, value, children⟩ := entry
      exact visit depth value children pending
        (ih _ (hCounted ▸ pendingCount_append_lt depth value children pending) _ rfl)

def outlineFrom (pending : List (Nat × ErrorTree α)) : List (Nat × α) :=
  (walkFrom pending).map fun entry => (entry.1, entry.2.value)

def outline (tree : ErrorTree α) : List (Nat × α) :=
  tree.walk.map fun entry => (entry.1, entry.2.value)

theorem outline_eq (tree : ErrorTree α) : tree.outline = outlineFrom [(0, tree)] := rfl

@[simp] theorem outlineFrom_nil : outlineFrom ([] : List (Nat × ErrorTree α)) = [] := by
  simp [outlineFrom]

@[simp] theorem outlineFrom_cons (depth : Nat) (value : α) (children : List (ErrorTree α))
    (pending : List (Nat × ErrorTree α)) :
    outlineFrom ((depth, node value children) :: pending) =
      (depth, value) ::
        outlineFrom (children.map (fun child => (depth + 1, child)) ++ pending) := by
  simp [outlineFrom, walkFrom_cons]

def Follows (before entry : Nat × α) : Prop :=
  1 ≤ entry.1 ∧ entry.1 ≤ before.1 + 1

/-- A list of depths and values that starts at a root and never skips a level on its way down. -/
structure IsOutline (entries : List (Nat × α)) : Prop where
  atRoot : entries.head?.map Prod.fst = some 0
  chain : entries.IsChain Follows

/-- The tree of an entry is put before the pending ones, having taken those one level deeper. -/
def attach (entry : Nat × α) (pending : List (Nat × ErrorTree α)) : List (Nat × ErrorTree α) :=
  (entry.1, node entry.2
      ((pending.takeWhile fun later => later.1 == entry.1 + 1).map Prod.snd)) ::
    pending.dropWhile fun later => later.1 == entry.1 + 1

def gather (entries : List (Nat × α)) : List (Nat × ErrorTree α) :=
  entries.foldr attach []

/-- The tree that a list of depths and values spells. -/
def decode (entries : List (Nat × α)) : Option (ErrorTree α) :=
  match gather entries with
  | [(0, tree)] => some tree
  | _ => none

@[simp] theorem gather_nil : gather ([] : List (Nat × α)) = [] := rfl

@[simp] theorem gather_cons (entry : Nat × α) (entries : List (Nat × α)) :
    gather (entry :: entries) = attach entry (gather entries) := rfl

theorem outlineFrom_attach (entry : Nat × α) (pending : List (Nat × ErrorTree α)) :
    outlineFrom (attach entry pending) = entry :: outlineFrom pending := by
  have hTaken : ∀ later ∈ pending.takeWhile (fun later => later.1 == entry.1 + 1),
      (entry.1 + 1, later.2) = later := by
    intro later hAmong
    have hDeeper := List.mem_takeWhile_imp hAmong
    ext1
    · simpa using (beq_iff_eq.mp hDeeper).symm
    · rfl
  simp only [attach, outlineFrom_cons, List.map_map, Function.comp_def]
  rw [List.map_congr_left hTaken, List.map_id', List.takeWhile_append_dropWhile]

theorem outlineFrom_gather (entries : List (Nat × α)) : outlineFrom (gather entries) = entries := by
  induction entries with
  | nil => simp
  | cons entry entries ih => rw [gather_cons, outlineFrom_attach, ih]

/-- Trees that can still be pending when an entry of the depth has been visited: none is a root,
none skips a level, and none lies deeper than one before it. -/
structure Below (depth : Nat) (pending : List (Nat × ErrorTree α)) : Prop where
  deep : ∀ entry ∈ pending, 1 ≤ entry.1
  near : ∀ entry ∈ pending, entry.1 ≤ depth + 1
  falling : pending.Pairwise fun earlier later => later.1 ≤ earlier.1

namespace Below

variable {depth above : Nat} {value : α} {children : List (ErrorTree α)}
  {pending : List (Nat × ErrorTree α)}

theorem nil : Below depth ([] : List (Nat × ErrorTree α)) :=
  ⟨by simp, by simp, .nil⟩

theorem visited (hTrees : Below above ((depth, node value children) :: pending)) :
    Below depth (children.map (fun child => (depth + 1, child)) ++ pending) := by
  have hShallow : ∀ entry ∈ pending, entry.1 ≤ depth := (List.pairwise_cons.mp hTrees.falling).1
  constructor
  · intro entry hAmong
    obtain hChild | hLater := List.mem_append.mp hAmong
    · obtain ⟨_, _, rfl⟩ := List.mem_map.mp hChild
      exact Nat.le_add_left 1 depth
    · exact hTrees.deep entry (.tail _ hLater)
  · intro entry hAmong
    obtain hChild | hLater := List.mem_append.mp hAmong
    · obtain ⟨_, _, rfl⟩ := List.mem_map.mp hChild
      exact Nat.le_refl _
    · exact Nat.le_succ_of_le (hShallow entry hLater)
  · refine List.pairwise_append.mpr ⟨?_, (List.pairwise_cons.mp hTrees.falling).2, ?_⟩
    · exact List.pairwise_map.mpr (List.pairwise_of_forall fun _ _ => Nat.le_refl _)
    · intro child hAmong entry hLater
      obtain ⟨_, _, rfl⟩ := List.mem_map.mp hAmong
      exact Nat.le_succ_of_le (hShallow entry hLater)

theorem ofChildren (depth : Nat) (children : List (ErrorTree α)) :
    Below depth (children.map fun child => (depth + 1, child)) :=
  ⟨by simp, by simp, List.pairwise_map.mpr (List.pairwise_of_forall fun _ _ => Nat.le_refl _)⟩

theorem shallow_of_left (hTrees : Below depth pending) :
    ∀ later ∈ pending.dropWhile (fun later => later.1 == depth + 1), later.1 ≤ depth := by
  obtain ⟨-, hNear, hFalling⟩ := hTrees
  induction pending with
  | nil => simp
  | cons entry pending ih =>
      obtain ⟨hShallow, hFalling⟩ := List.pairwise_cons.mp hFalling
      intro later hAmong
      by_cases hChild : entry.1 = depth + 1
      · rw [List.dropWhile_cons_of_pos (by simpa using hChild)] at hAmong
        exact ih (fun entry hPends => hNear entry (.tail _ hPends)) hFalling later hAmong
      · rw [List.dropWhile_cons_of_neg (by simpa using hChild)] at hAmong
        have hKept : entry.1 ≤ depth := by
          have := hNear entry (.head _)
          omega
        obtain rfl | hRest := List.mem_cons.mp hAmong
        · exact hKept
        · exact Nat.le_trans (hShallow later hRest) hKept

end Below

theorem attach_children {depth : Nat} {value : α} {children : List (ErrorTree α)}
    {pending : List (Nat × ErrorTree α)} (hShallow : ∀ entry ∈ pending, entry.1 ≤ depth) :
    attach (depth, value) (children.map (fun child => (depth + 1, child)) ++ pending) =
      (depth, node value children) :: pending := by
  have hDeeper : ∀ entry ∈ children.map (fun child => (depth + 1, child)),
      (entry.1 == depth + 1) = true := by
    simp
  have hStops : pending.takeWhile (fun entry => entry.1 == depth + 1) = [] := by
    cases pending with
    | nil => rfl
    | cons entry pending =>
        have hOff : entry.1 ≠ depth + 1 := by
          have := hShallow entry (.head _)
          omega
        simp [hOff]
  have hStays : pending.dropWhile (fun entry => entry.1 == depth + 1) = pending := by
    have hRejoined := List.takeWhile_append_dropWhile (p := fun entry => entry.1 == depth + 1)
      (l := pending)
    rwa [hStops, List.nil_append] at hRejoined
  simp only [attach, List.takeWhile_append_of_pos hDeeper, List.dropWhile_append_of_pos hDeeper,
    hStops, hStays, List.append_nil, List.map_map, Function.comp_def, List.map_id']

namespace Below

variable {depth : Nat} {before entry : Nat × α} {pending : List (Nat × ErrorTree α)}

theorem gather_outlineFrom (hTrees : Below depth pending) :
    gather (outlineFrom pending) = pending := by
  induction pending using visitInduction generalizing depth with
  | done => simp
  | visit level value children pending ih =>
      rw [outlineFrom_cons, gather_cons, ih hTrees.visited]
      exact attach_children (List.pairwise_cons.mp hTrees.falling).1

theorem chain_outlineFrom (hTrees : Below before.1 pending) :
    (before :: outlineFrom pending).IsChain Follows := by
  induction pending using visitInduction generalizing before with
  | done => simp
  | visit level value children pending ih =>
      rw [outlineFrom_cons]
      exact .cons_cons ⟨hTrees.deep _ (.head _), hTrees.near _ (.head _)⟩ (ih hTrees.visited)

theorem attach (hTrees : Below entry.1 pending) (hDeep : 1 ≤ entry.1) (hNear : entry.1 ≤ depth + 1) :
    Below depth (attach entry pending) := by
  have hKept := List.dropWhile_sublist (l := pending) fun later => later.1 == entry.1 + 1
  have hShallow := hTrees.shallow_of_left
  constructor
  · intro later hAmong
    obtain rfl | hRest := List.mem_cons.mp hAmong
    · exact hDeep
    · exact hTrees.deep later (hKept.subset hRest)
  · intro later hAmong
    obtain rfl | hRest := List.mem_cons.mp hAmong
    · exact hNear
    · exact Nat.le_trans (hShallow later hRest) hNear
  · exact List.pairwise_cons.mpr ⟨hShallow, hTrees.falling.sublist hKept⟩

theorem of_chain {entries : List (Nat × α)} (hChain : (before :: entries).IsChain Follows) :
    Below before.1 (gather entries) := by
  induction entries generalizing before with
  | nil => exact nil
  | cons entry entries ih =>
      obtain ⟨⟨hDeep, hNear⟩, hChain⟩ := List.isChain_cons_cons.mp hChain
      exact (ih hChain).attach hDeep hNear

end Below

theorem gather_outline (tree : ErrorTree α) : gather tree.outline = [(0, tree)] := by
  obtain ⟨value, children⟩ := tree
  have hBelow := Below.ofChildren 0 children
  rw [outline_eq, outlineFrom_cons, gather_cons, List.append_nil, hBelow.gather_outlineFrom,
    ← List.append_nil (children.map _)]
  exact attach_children (by simp)

theorem isOutline_outline (tree : ErrorTree α) : IsOutline tree.outline := by
  obtain ⟨value, children⟩ := tree
  rw [outline_eq, outlineFrom_cons, List.append_nil]
  exact ⟨rfl, Below.chain_outlineFrom (Below.ofChildren 0 children)⟩

theorem IsOutline.gather_eq {entries : List (Nat × α)} (hSpelled : IsOutline entries) :
    ∃ tree, gather entries = [(0, tree)] := by
  obtain ⟨hAtRoot, hChain⟩ := hSpelled
  cases entries with
  | nil => simp at hAtRoot
  | cons root entries =>
      have hRoot_eq : root.1 = 0 := by simpa using hAtRoot
      have hBelow := Below.of_chain hChain
      have hChildren : ∀ entry ∈ gather entries, (entry.1 == root.1 + 1) = true := by
        intro entry hAmong
        have hDeep := hBelow.deep entry hAmong
        have hNear := hBelow.near entry hAmong
        simp only [beq_iff_eq]
        omega
      rw [gather_cons, attach, List.dropWhile_eq_nil_iff.mpr hChildren, hRoot_eq]
      exact ⟨_, rfl⟩

/-- The reading finds the tree of a walk, and nothing else. -/
theorem decode_eq_some_iff {entries : List (Nat × α)} {tree : ErrorTree α} :
    decode entries = some tree ↔ tree.outline = entries := by
  constructor
  · intro hDecoded
    have hGathered : gather entries = [(0, tree)] := by
      unfold decode at hDecoded
      split at hDecoded
      · simp_all
      · cases hDecoded
    rw [outline_eq, ← hGathered, outlineFrom_gather]
  · rintro rfl
    simp [decode, gather_outline]

example : decode [(0, "a"), (1, "b"), (2, "c"), (1, "d")] =
    some (node "a" [node "b" [leaf "c"], leaf "d"]) := rfl

example : decode [(0, "a"), (2, "b")] = none := rfl

section Equality

variable {κ : Type}

def EqualEntries (first second : Nat × Value κ) : Prop :=
  first.1 = second.1 ∧ first.2.equals second.2 = true

def EqualPending (first second : Nat × ErrorTree (Value κ)) : Prop :=
  first.1 = second.1 ∧ (Value.ofTree first.2).equals (Value.ofTree second.2) = true

theorem allEqual_ofTrees {first second : List (Nat × ErrorTree (Value κ))}
    (hEqual : List.Forall₂ EqualPending first second) :
    Value.allEqual (Value.ofTrees (first.map Prod.snd)) (Value.ofTrees (second.map Prod.snd)) =
      true := by
  induction hEqual with
  | nil => simp [Value.ofTrees, Value.allEqual]
  | cons hHead _ ih => simp [Value.ofTrees, Value.allEqual, hHead.2, ih]

theorem equalPending_split {first second : List (Nat × ErrorTree (Value κ))} (depth : Nat)
    (hEqual : List.Forall₂ EqualPending first second) :
    List.Forall₂ EqualPending (first.takeWhile fun later => later.1 == depth)
        (second.takeWhile fun later => later.1 == depth) ∧
      List.Forall₂ EqualPending (first.dropWhile fun later => later.1 == depth)
        (second.dropWhile fun later => later.1 == depth) := by
  induction hEqual with
  | nil => exact ⟨.nil, .nil⟩
  | @cons entry other rest others hHead hTail ih =>
      by_cases hTaken : entry.1 = depth
      · have hTakenToo : other.1 = depth := hHead.1 ▸ hTaken
        simpa [hTaken, hTakenToo] using And.intro (And.intro hHead ih.1) ih.2
      · have hLeftToo : other.1 ≠ depth := hHead.1 ▸ hTaken
        simpa [hTaken, hLeftToo] using And.intro hHead hTail

theorem equalPending_gather {first second : List (Nat × Value κ)}
    (hEqual : List.Forall₂ EqualEntries first second) :
    List.Forall₂ EqualPending (gather first) (gather second) := by
  induction hEqual with
  | nil => exact .nil
  | @cons entry other _ _ hHead _ ih =>
      obtain ⟨hTaken, hLeft⟩ := equalPending_split (entry.1 + 1) ih
      rw [gather_cons, gather_cons, attach, attach, ← hHead.1]
      refine .cons ⟨rfl, ?_⟩ hLeft
      simp [Value.ofTree, Value.equals, hHead.2, allEqual_ofTrees hTaken]

end Equality

/-- The walk encodes trees faithfully: its outlines are the lists that start at a root and never
skip a level, each of them for one tree, and reading an outline undoes taking it. Outlines that the
values' own equality cannot tell apart belong to trees that it cannot tell apart. -/
theorem outline_encodes_exactly {κ : Type} :
    (∀ tree : ErrorTree α, IsOutline tree.outline ∧ decode tree.outline = some tree) ∧
      (∀ entries : List (Nat × α), IsOutline entries →
        (∃! tree : ErrorTree α, tree.outline = entries) ∧
          (decode entries).map outline = some entries) ∧
      (∀ first second : ErrorTree α, first.outline = second.outline → first = second) ∧
      ∀ first second : ErrorTree (Value κ),
        List.Forall₂ EqualEntries first.outline second.outline →
          (Value.ofTree first).equals (Value.ofTree second) = true := by
  have hDecoded (tree : ErrorTree α) : decode tree.outline = some tree := decode_eq_some_iff.mpr rfl
  have hInjective (first second : ErrorTree α) (hSame : first.outline = second.outline) :
      first = second := by
    apply Option.some.inj
    rw [← hDecoded first, ← hDecoded second, hSame]
  refine ⟨fun tree => ⟨isOutline_outline tree, hDecoded tree⟩, ?_, hInjective, ?_⟩
  · intro entries hSpelled
    obtain ⟨tree, hGathered⟩ := hSpelled.gather_eq
    have hFound : decode entries = some tree := by simp [decode, hGathered]
    have hSpells : tree.outline = entries := decode_eq_some_iff.mp hFound
    refine ⟨⟨tree, hSpells, fun other hSame => hInjective other tree (hSame.trans hSpells.symm)⟩, ?_⟩
    rw [hFound, Option.map_some, hSpells]
  · intro first second hEqual
    have hGathered := equalPending_gather hEqual
    rw [gather_outline, gather_outline] at hGathered
    cases hGathered with
    | cons hHead _ => exact hHead.2

end Backtrack.ErrorTree
