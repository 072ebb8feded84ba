import NumericTrees.Limits
import NumericTrees.Node.Depth

/-!
# Passes over trees

A tree is typed from the bottom up and without any values, so that it can be checked before its
variables are bound. Typing and evaluation both measure a tree first and turn it away if it is too
deep.
-/

namespace NumericTrees.Node

variable {α : Type} [Node α]

/-- The type of a node for the types of its children, which it must take. -/
def typeOf (t : α) (inputs : List ValueType) : Except TypeError ValueType :=
  match inferRoot t inputs with
  | some type => .ok type
  | none => .error (.illTyped (identifier t) inputs)

/-- The type of a tree, or the first reason, depth first and from the left, why it has none. Every
slot must hold a child that has a type. -/
def infer (t : α) : Except TypeError ValueType := do
  let inputs ← (List.finRange (arity t)).mapM fun (index : Fin (arity t)) =>
    match _h : child? t index with
    | some child => infer child
    | none => .error (.missingChild (identifier t) index)
  typeOf t inputs
termination_by size t
decreasing_by exact size_child_lt index.isLt ‹_›

/-- The type of the child in a slot. -/
def inferSlot (t : α) (index : Nat) : Except TypeError ValueType :=
  match child? t index with
  | some child => infer child
  | none => .error (.missingChild (identifier t) index)

/-- A node types the children in all of its slots, in order, and then itself. -/
theorem infer_eq (t : α) : infer t = (List.range (arity t)).mapM (inferSlot t) >>= typeOf t := by
  have hslot (index : Fin (arity t)) : (match _h : child? t index with
      | some child => infer child
      | none => .error (.missingChild (identifier t) index)) = inferSlot t index := by
    rw [inferSlot]
    split <;> simp_all
  have hrange : List.range (arity t) = (List.finRange (arity t)).map Fin.val :=
    List.ext_getElem (by simp) (by simp)
  rw [infer, hrange, List.mapM_map]
  simp only [hslot]
  rfl

/-- The type of a tree that is not too deep. -/
def inferWithin (limits : Limits) (t : α) : Except TypeError ValueType :=
  let depth := depth t
  if depth ≤ limits.maxDepth then infer t else .error (.depthExceeded depth limits.maxDepth)

/-- The value of a tree that is not too deep. Nothing of a tree beyond the limit is evaluated. -/
def evaluateWithin (limits : Limits) (store : Store) (t : α) : Trace Value :=
  let depth := depth t
  if depth ≤ limits.maxDepth then evaluate store t
  else .fail (.depthExceeded depth limits.maxDepth)

end NumericTrees.Node
