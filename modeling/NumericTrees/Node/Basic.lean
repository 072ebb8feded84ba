import NumericTrees.Trace
import NumericTrees.Variable

/-!
# Nodes

What is asked of the nodes of a tree when the tree is measured, typed and evaluated. A node reports
its identifier and its number of slots, shows the child in a slot, says which type it has for
children of given types, and evaluates itself with all that is below it. New operations are added as
nodes of another sort, with any number of slots and with a typing and an evaluation of their own.
-/

namespace NumericTrees

/-- Trees made of nodes. A tree is given by its root. -/
class Node (α : Type) where
  identifier : α → String
  /-- The number of slots. -/
  arity : α → Nat
  /-- The child in a slot. -/
  child? : α → Nat → Option α
  /-- The type of a node for children of the given types. -/
  inferRoot : α → List ValueType → Option ValueType
  /-- The value of a tree when variables have the values in the store. -/
  evaluate : Store → α → Trace Value
  /-- A measure under which a tree is larger than its children, because trees are finite. -/
  size : α → Nat
  size_child_lt {t child : α} {index : Nat} :
    index < arity t → child? t index = some child → size child < size t

namespace Node

variable {α : Type} [Node α] {t child : α}

/-- The children that are there, in the order of their slots. -/
def children (t : α) : List α := (List.range (arity t)).filterMap (child? t)

theorem mem_children_iff :
    child ∈ children t ↔ ∃ index < arity t, child? t index = some child := by
  rw [children, List.mem_filterMap]
  simp only [List.mem_range]

theorem size_lt_of_mem_children (h : child ∈ children t) : size child < size t := by
  obtain ⟨index, hindex, hchild⟩ := mem_children_iff.mp h
  exact size_child_lt hindex hchild

end Node

end NumericTrees
