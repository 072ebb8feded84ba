import NumericTrees.Node.Basic

/-!
# Depth of trees

The depth is the number of nodes on the longest path from the root to a leaf. It is measured with a
list of pending nodes and their levels instead of by recursion, so that it can be asked of trees of
any depth before anything else is done with them.
-/

namespace NumericTrees.Node

variable {α : Type} [Node α]

/-- The number of nodes of a tree. -/
def nodeCount (t : α) : Nat :=
  1 + ((children t).attach.map fun ⟨child, _⟩ => nodeCount child).foldr (· + ·) 0
termination_by size t
decreasing_by exact size_lt_of_mem_children ‹_›

theorem nodeCount_eq (t : α) :
    nodeCount t = 1 + ((children t).map nodeCount).foldr (· + ·) 0 := by
  rw [nodeCount, List.attach_map_val]

/-- The number of nodes that are pending or below a pending one. -/
def pendingCount : List (α × Nat) → Nat
  | [] => 0
  | (node, _) :: rest => nodeCount node + pendingCount rest

theorem pendingCount_append (pending rest : List (α × Nat)) :
    pendingCount (pending ++ rest) = pendingCount pending + pendingCount rest := by
  induction pending with
  | nil => rw [List.nil_append, pendingCount, Nat.zero_add]
  | cons entry pending ih => rw [List.cons_append, pendingCount, pendingCount, ih, Nat.add_assoc]

theorem pendingCount_reverse_map (nodes : List α) (level : Nat) :
    pendingCount (nodes.map (·, level)).reverse = (nodes.map nodeCount).foldr (· + ·) 0 := by
  induction nodes with
  | nil => rfl
  | cons node nodes ih =>
    rw [List.map_cons, List.reverse_cons, pendingCount_append, ih, List.map_cons, List.foldr_cons]
    simp only [pendingCount]
    omega

/-- A node counts one more than its children do. -/
theorem pendingCount_cons (node : α) (level : Nat) (rest : List (α × Nat)) :
    pendingCount ((node, level) :: rest) =
      pendingCount (((children node).map (·, level + 1)).reverse ++ rest) + 1 := by
  rw [pendingCount, pendingCount_append, pendingCount_reverse_map, nodeCount_eq node]
  omega

/-- The greatest level among pending nodes and all nodes below them, and `deepest` at least. The
children of a node are put on top of the pending nodes one after another, so the last of them is
looked at first. -/
def deepestLevel (pending : List (α × Nat)) (deepest : Nat) : Nat :=
  match pending with
  | [] => deepest
  | (node, level) :: rest =>
    deepestLevel (((children node).map (·, level + 1)).reverse ++ rest) (max deepest level)
termination_by pendingCount pending
decreasing_by
  rw [pendingCount_cons node level rest]
  exact Nat.lt_succ_self _

/-- The number of nodes on the longest path from the root; empty slots do not count. -/
def depth (t : α) : Nat := deepestLevel [(t, 1)] 0

end NumericTrees.Node
