import NumericTrees.Tree.Basic

/-!
# Evaluation of trees

A tree is evaluated depth first, the children of a node from the left to the right, each of them
once and before the node itself. The first failure on that walk is the failure of the whole tree.
-/

namespace NumericTrees.Tree

/-- The value of a tree when variables have the values in `store`. -/
def evaluate (store : Store) : Tree → Trace Value :=
  fold (Terminal.evaluate store) fun op slots => do
    let inputs ← Slots.evaluateAll op.identifier id slots
    Trace.ofExcept (op.apply inputs)

theorem evaluate_terminal (store : Store) (t : Terminal) :
    (terminal t).evaluate store = t.evaluate store := by
  rw [evaluate, fold_terminal]

/-- A function node evaluates the children in all of its slots and then applies its operation. -/
theorem evaluate_function (store : Store) (op : Operation) (slots : Slots Tree op.arity) :
    (function op slots).evaluate store =
      (Slots.evaluateAll op.identifier (evaluate store) slots).andThen fun inputs =>
        Trace.ofExcept (op.apply inputs) := by
  rw [evaluate, fold_function, Slots.evaluateAll, Slots.traverse_map]
  rfl

end NumericTrees.Tree
