import NumericTrees.Tree.Node

/-!
# Typing of trees

The type of a tree is inferred from the bottom up and without any values, so that a tree can be
checked before its variables are bound.
-/

namespace NumericTrees

/-- Infers the types of the children in all slots on behalf of `node`, in order, up to the first
failure. -/
def Slots.inferAll {α : Type} {n : Nat} (node : String) (infer : α → Except TypeError ValueType)
    (slots : Slots α n) : Except TypeError (Tuple ValueType n) :=
  slots.traverse (fun index => .error (.missingChild node index)) infer 0

/-- The type of the result of an operation, which must take inputs of the given types. -/
def Operation.typeOf (op : Operation) (inputs : List ValueType) : Except TypeError ValueType :=
  match op.infer inputs with
  | some type => .ok type
  | none => .error (.illTyped op.identifier inputs)

namespace Tree

/-- The type of a tree, or the first reason, depth first and from the left, why it has none. -/
def infer : Tree → Except TypeError ValueType :=
  fold Terminal.check fun op slots => do
    let inputs ← Slots.inferAll op.identifier id slots
    op.typeOf inputs.toList

theorem infer_terminal (t : Terminal) : (terminal t).infer = t.check := by
  rw [infer, fold_terminal]

/-- A function node infers the types of the children in all of its slots and then its own. -/
theorem infer_function (op : Operation) (slots : Slots Tree op.arity) :
    (function op slots).infer =
      (Slots.inferAll op.identifier infer slots).bind (op.typeOf ·.toList) := by
  rw [infer, fold_function, Slots.inferAll, Slots.traverse_map]
  rfl

/-- Typing node after node answers what the fold over the tree answers. -/
theorem infer_node (t : Tree) : Node.infer t = t.infer := by
  induction t using Tree.induction with
  | terminal t =>
    have harity : Node.arity (terminal t) = t.arity := rfl
    rw [Node.infer_eq, infer_terminal, Terminal.check, harity]
    cases t.arity with
    | zero => rfl
    | succ n =>
      -- Nothing is in the first of the reported slots.
      rw [List.range_succ_eq_map, List.mapM_cons, if_pos (Nat.succ_pos n)]
      rfl
  | function op slots ih =>
    have hslot (index : Nat) : Node.inferSlot (function op slots) index =
        (Slots.child? slots index).elim (.error (.missingChild op.identifier (0 + index)))
          infer := by
      have hchild : Node.child? (function op slots) index = Slots.child? slots index := rfl
      rw [Node.inferSlot, hchild, Nat.zero_add]
      cases hfound : Slots.child? slots index with
      | none => rfl
      | some child => exact ih child (Slots.mem_children_of_child? hfound)
    have hinputs : (List.range op.arity).mapM (Node.inferSlot (function op slots)) =
        Tuple.toList <$> Slots.inferAll op.identifier infer slots := by
      rw [funext hslot, Slots.inferAll, Slots.toList_traverse]
    have harity : Node.arity (function op slots) = op.arity := rfl
    rw [Node.infer_eq, infer_function, harity, hinputs, bind_map_left]
    rfl

/-- The type of a tree that is not too deep. -/
def inferWithin (limits : Limits) (t : Tree) : Except TypeError ValueType :=
  Node.inferWithin limits t

theorem inferWithin_eq (limits : Limits) (t : Tree) :
    t.inferWithin limits =
      if t.depth ≤ limits.maxDepth then t.infer
      else .error (.depthExceeded t.depth limits.maxDepth) := by
  rw [← infer_node]
  rfl

/-- Whether a tree within the usual limit has a type. -/
def isWellTyped (t : Tree) : Bool :=
  match t.inferWithin {} with
  | .ok _ => true
  | .error _ => false

end Tree

end NumericTrees
