import NumericTrees.Node.Passes
import NumericTrees.Tree.Evaluation

/-!
# Trees as nodes

A tree of terminals and operations is measured and evaluated within limits as every other tree of
nodes is.
-/

namespace NumericTrees.Tree

/-- The number of nodes of a tree. -/
def size : Tree → Nat :=
  fold (fun _ => 1) fun _ slots => 1 + (Slots.children slots).foldr (· + ·) 0

theorem size_child_lt {t child : Tree} {index : Nat} (h : t.child? index = some child) :
    child.size < t.size := by
  cases t with
  | terminal x => cases h
  | function op slots =>
    have hle := Slots.weight_le_total size h
    rw [size, fold_function, Slots.children_map, ← size]
    omega

instance : Node Tree where
  identifier := identifier
  arity := arity
  child? := child?
  inferRoot := inferRoot
  evaluate := evaluate
  size := size
  size_child_lt _ h := size_child_lt h

/-- The number of nodes on the longest path from the root; empty slots do not count. -/
def depth (t : Tree) : Nat := Node.depth t

/-- The value of a tree that is not too deep. Nothing of a tree beyond the limit is evaluated. -/
def evaluateWithin (limits : Limits) (store : Store) (t : Tree) : Trace Value :=
  Node.evaluateWithin limits store t

theorem evaluateWithin_eq (limits : Limits) (store : Store) (t : Tree) :
    t.evaluateWithin limits store =
      if t.depth ≤ limits.maxDepth then t.evaluate store
      else .fail (.depthExceeded t.depth limits.maxDepth) := rfl

end NumericTrees.Tree
