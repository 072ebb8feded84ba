import NumericTrees.Operation
import NumericTrees.Terminal

/-!
# Expression trees

A tree is a terminal or an operation with its slots. A tree with empty slots is a skeleton: it can
be measured, edited and printed, but it has neither a value nor a type.
-/

namespace NumericTrees

/-- A terminal, or an operation with its slots, one for each operand. -/
inductive Tree where
  | terminal (t : Terminal)
  | function (op : Operation) (slots : Tuple (Option Tree) op.arity)

namespace Tree

universe u

mutual

/-- Computes a result from the bottom up: `leaf` answers for a terminal, and `node` for an
operation whose slots hold the results of the children. -/
def fold {β : Type u} (leaf : Terminal → β)
    (node : (op : Operation) → Slots β op.arity → β) : Tree → β
  | terminal t => leaf t
  | function op slots => node op (foldSlots leaf node slots)

/-- The results of the children in a row of slots. -/
def foldSlots {β : Type u} (leaf : Terminal → β)
    (node : (op : Operation) → Slots β op.arity → β) :
    {n : Nat} → Slots Tree n → Slots β n
  | _, .nil => .nil
  | _, .cons none rest => .cons none (foldSlots leaf node rest)
  | _, .cons (some child) rest => .cons (some (fold leaf node child)) (foldSlots leaf node rest)

end

theorem foldSlots_eq_map {β : Type u} (leaf : Terminal → β)
    (node : (op : Operation) → Slots β op.arity → β) {n : Nat}
    (slots : Slots Tree n) :
    foldSlots leaf node slots = slots.map (Option.map (fold leaf node)) := by
  induction slots with
  | nil => simp [foldSlots, Tuple.map]
  | cons slot rest ih => cases slot <;> simp [foldSlots, Tuple.map, ih]

@[simp] theorem fold_terminal {β : Type u} (leaf : Terminal → β)
    (node : (op : Operation) → Slots β op.arity → β) (t : Terminal) :
    fold leaf node (terminal t) = leaf t := by
  rw [fold]

/-- The result of a function node is computed from the results of its children. -/
theorem fold_function {β : Type u} (leaf : Terminal → β)
    (node : (op : Operation) → Slots β op.arity → β) (op : Operation)
    (slots : Slots Tree op.arity) :
    fold leaf node (function op slots) = node op (slots.map (Option.map (fold leaf node))) := by
  rw [fold, foldSlots_eq_map]

/-- A property of all terminals that passes from the children of a node to the node holds of every
tree. -/
@[elab_as_elim]
theorem induction {motive : Tree → Prop} (terminal : ∀ t, motive (terminal t))
    (function : ∀ op slots, (∀ child ∈ Slots.children slots, motive child) →
      motive (function op slots)) (t : Tree) : motive t :=
  @Tree.rec motive (fun _ slots => ∀ child ∈ Slots.children slots, motive child)
    (fun slot => ∀ child ∈ slot, motive child) terminal function (by simp)
    (fun slot rest hslot hrest => by
      cases slot with
      | none => simpa using hrest
      | some child => simpa using ⟨hslot child rfl, hrest⟩)
    (by simp) (by simp) t

/-- A copy of a tree, node by node. A copy of a variable is a handle on the same cell. -/
def copy : Tree → Tree := fold terminal function

theorem copy_eq (t : Tree) : t.copy = t := by
  induction t using Tree.induction with
  | terminal x => rw [copy, fold_terminal]
  | function op slots ih =>
    have hslots : slots.map (Option.map (fold terminal function)) = slots := Slots.map_eq_self ih
    rw [copy, fold_function, hslots]

/-- The tree that is a constant. -/
def ofValue (value : Value) : Tree := terminal (.literal ⟨value⟩)

/-- The tree that is a variable. -/
def ofVariable (v : Variable) : Tree := terminal (.var v)

/-- An operation with empty slots. -/
def skeleton (op : Operation) : Tree := function op (Slots.empty op.arity)

/-- A protected division. -/
def division (protection : Double) (dividend divisor : Option Tree) : Tree :=
  function (.division protection) (.cons dividend (.cons divisor .nil))

/-- A coefficient power. -/
def power (coefficient term exponent : Option Tree) : Tree :=
  function .power (.cons coefficient (.cons term (.cons exponent .nil)))

def identifier : Tree → String
  | terminal t => t.identifier
  | function op _ => op.identifier

/-- The number of slots that the root reports. -/
def arity : Tree → Nat
  | terminal t => t.arity
  | function op _ => op.arity

/-- The type of the root for children of the given types. -/
def inferRoot : Tree → List ValueType → Option ValueType
  | terminal t => t.infer
  | function op _ => op.infer

/-- The child in a slot of the root. -/
def child? : Tree → Nat → Option Tree
  | terminal _, _ => none
  | function _ slots, index => Slots.child? slots index

/-- The children of the root that are there, in the order of their slots. -/
def children : Tree → List Tree
  | terminal _ => []
  | function _ slots => Slots.children slots

/-- The protection value of a tree whose root is a division. -/
def protection? : Tree → Option Double
  | terminal _ => none
  | function op _ => op.protection?

/-- The tree with another protection value at its root, where that is a division. -/
def withProtection (protection : Double) : Tree → Tree
  | function (.division _) slots => function (.division protection) slots
  | t => t

end Tree

end NumericTrees
