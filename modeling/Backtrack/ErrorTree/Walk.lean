import Backtrack.ErrorTree.Basic

/-! The walk of a tree lists its nodes in trial order, each with its depth. It works on the list of
nodes still to be visited: the first is visited and its children take its place. -/

namespace Backtrack.ErrorTree

variable {α : Type}

mutual
def nodeCount : ErrorTree α → Nat
  | node _ children => nodeCounts children + 1
def nodeCounts : List (ErrorTree α) → Nat
  | [] => 0
  | tree :: rest => nodeCount tree + nodeCounts rest
end

/-- The nodes below the entries of a list of pending visits, those entries included. -/
def pendingCount (pending : List (Nat × ErrorTree α)) : Nat :=
  nodeCounts (pending.map Prod.snd)

theorem nodeCounts_append (first second : List (ErrorTree α)) :
    nodeCounts (first ++ second) = nodeCounts first + nodeCounts second := by
  induction first with
  | nil => simp [nodeCounts]
  | cons tree rest ih => simp [nodeCounts, ih, Nat.add_assoc]

/-- Visits the pending nodes, and the nodes below them, from the front of the list. -/
def walkFrom : List (Nat × ErrorTree α) → List (Nat × ErrorTree α)
  | [] => []
  | (depth, node value children) :: pending =>
      (depth, node value children) ::
        walkFrom (children.map (fun child => (depth + 1, child)) ++ pending)
termination_by pending => pendingCount pending
decreasing_by
  simp [pendingCount, nodeCounts_append, nodeCounts, nodeCount, Function.comp_def]

def walk (tree : ErrorTree α) : List (Nat × ErrorTree α) :=
  walkFrom [(0, tree)]

@[simp] theorem walkFrom_nil : walkFrom ([] : List (Nat × ErrorTree α)) = [] := by
  rw [walkFrom]

theorem walkFrom_cons (depth : Nat) (value : α) (children : List (ErrorTree α))
    (pending : List (Nat × ErrorTree α)) :
    walkFrom ((depth, node value children) :: pending) =
      (depth, node value children) ::
        walkFrom (children.map (fun child => (depth + 1, child)) ++ pending) := by
  rw [walkFrom]

def values (tree : ErrorTree α) : List α :=
  tree.walk.map fun entry => entry.2.value

def size (tree : ErrorTree α) : Nat :=
  tree.walk.length

def depth (tree : ErrorTree α) : Nat :=
  (tree.walk.map Prod.fst).foldl max 0

end Backtrack.ErrorTree
