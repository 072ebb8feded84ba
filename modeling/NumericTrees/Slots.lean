import NumericTrees.Change
import NumericTrees.Trace
import NumericTrees.Tuple
import NumericTrees.Value

/-!
# Slots of a node

A node with `n` slots keeps a child or nothing in each of them. Slots are visited in the order of
their indices, and the first empty slot or failing child ends the visit.
-/

namespace NumericTrees

universe u v

/-- An index that is no slot of a node. -/
structure SlotError where
  index : Nat
  arity : Nat
  deriving DecidableEq

/-- The message for an index that is no slot. -/
def SlotError.message (e : SlotError) : String :=
  let index := e.index
  let arity := e.arity
  s!"child index {index} is out of range for arity {arity}"

/-- The slots of a node, each of them empty or taken by a child. -/
abbrev Slots (α : Type u) (n : Nat) := Tuple (Option α) n

namespace Slots

variable {α : Type u} {β : Type} {n : Nat}

/-- Slots without any child. -/
def empty (n : Nat) : Slots α n := Tuple.replicate none n

/-- The child in a slot. -/
def child? (slots : Slots α n) (index : Nat) : Option α := (slots.get? index).join

/-- The children that are there, in the order of their slots. -/
def children (slots : Slots α n) : List α := slots.toList.filterMap id

/-- Whether no slot is empty. -/
def isComplete (slots : Slots α n) : Bool := slots.toList.all Option.isSome

/-- Puts something else into a slot and answers with what was in it before. -/
def exchange (slots : Slots α n) (index : Nat) (occupant : Option α) :
    Change (Slots α n) SlotError (Option α) :=
  match slots.get? index with
  | some previous => ⟨.ok previous, slots.set index occupant⟩
  | none => ⟨.error ⟨index, n⟩, slots⟩

/-- Puts a child into a slot. -/
def put (slots : Slots α n) (index : Nat) (child : α) : Except SlotError (Slots α n × Option α) :=
  (slots.exchange index (some child)).made Prod.mk

/-- Empties a slot. -/
def take (slots : Slots α n) (index : Nat) : Except SlotError (Slots α n × Option α) :=
  (slots.exchange index none).made Prod.mk

/-- Visits the slots in order, the first of them having the given index. A child is visited, and
for an empty slot `missing` stands in. -/
def traverse {m : Type → Type} [Monad m] (missing : Nat → m β) (visit : α → m β) :
    {n : Nat} → (index : Nat) → Slots α n → m (Tuple β n)
  | _, _, .nil => pure .nil
  | _, index, .cons slot rest => do
    let head ← match slot with
      | some child => visit child
      | none => missing index
    let tail ← traverse missing visit (index + 1) rest
    pure (.cons head tail)

/-- Evaluates the child in one slot on behalf of `node`. -/
def evaluateAt (node : String) (evaluate : α → Trace β) (slots : Slots α n) (index : Nat) :
    Trace β :=
  match slots.child? index with
  | some child => evaluate child
  | none => .fail (.missingChild node index)

/-- Evaluates the children in all slots on behalf of `node`, in order, up to the first failure. -/
def evaluateAll (node : String) (evaluate : α → Trace β) (slots : Slots α n) :
    Trace (Tuple β n) :=
  slots.traverse (fun index => .fail (.missingChild node index)) evaluate 0

theorem exchange_atomic (slots : Slots α n) (index : Nat) (occupant : Option α) :
    (slots.exchange index occupant).Atomic slots := by
  intro e he
  rw [exchange] at he ⊢
  cases hslot : slots.get? index with
  | none => rfl
  | some previous =>
    rw [hslot] at he
    cases he

@[simp] theorem children_nil : children (.nil : Slots α 0) = [] := rfl

@[simp] theorem children_cons_none (rest : Slots α n) :
    children (.cons none rest) = rest.children := by
  simp [children, Tuple.toList]

@[simp] theorem children_cons_some (child : α) (rest : Slots α n) :
    children (.cons (some child) rest) = child :: rest.children := by
  simp [children, Tuple.toList]

theorem mem_children_iff {slots : Slots α n} {child : α} :
    child ∈ slots.children ↔ some child ∈ slots.toList := by
  simp [children]

theorem mem_children_of_child? {slots : Slots α n} {index : Nat} {child : α}
    (h : slots.child? index = some child) : child ∈ slots.children := by
  rw [child?, Tuple.get?_eq_getElem?, Option.join_eq_some_iff] at h
  exact mem_children_iff.mpr (List.mem_of_getElem? h)

/-- A child weighs at most as much as all children together. -/
theorem weight_le_total {slots : Slots α n} {index : Nat} {child : α} (weight : α → Nat)
    (h : slots.child? index = some child) :
    weight child ≤ (slots.children.map weight).foldr (· + ·) 0 := by
  induction slots generalizing index with
  | nil => cases h
  | cons slot rest ih =>
    cases index with
    | zero =>
      obtain rfl : slot = some child := h
      rw [children_cons_some, List.map_cons, List.foldr_cons]
      exact Nat.le_add_right _ _
    | succ index =>
      have hrest := @ih index h
      cases slot with
      | none => rwa [children_cons_none]
      | some other =>
        rw [children_cons_some, List.map_cons, List.foldr_cons]
        omega

/-- Visiting results of the children is visiting the children for these results. -/
theorem traverse_map {γ : Type v} {m : Type → Type} [Monad m] (missing : Nat → m β)
    (visit : γ → m β) (f : α → γ) (slots : Slots α n) (index : Nat) :
    traverse missing visit index (slots.map (Option.map f)) =
      traverse missing (fun child => visit (f child)) index slots := by
  induction slots generalizing index with
  | nil => rfl
  | cons slot rest ih => cases slot <;> simp [Tuple.map, traverse, ih]

/-- Visiting the slots in order is visiting their indices in order. -/
theorem toList_traverse {m : Type → Type} [Monad m] [LawfulMonad m] (missing : Nat → m β)
    (visit : α → m β) (slots : Slots α n) (index : Nat) :
    Tuple.toList <$> slots.traverse missing visit index =
      (List.range n).mapM fun i => (slots.child? i).elim (missing (index + i)) visit := by
  induction slots generalizing index with
  | nil => simp [traverse, Tuple.toList]
  | cons slot rest ih =>
    have hrest : (fun i => (child? rest i).elim (missing (index + 1 + i)) visit) =
        (fun i => (child? (.cons slot rest) i).elim (missing (index + i)) visit) ∘ Nat.succ := by
      funext i
      rw [Function.comp, Nat.add_assoc, Nat.add_comm 1]
      rfl
    rw [List.range_succ_eq_map, List.mapM_cons, List.mapM_map, ← hrest, ← ih]
    cases slot <;> simp [traverse, Tuple.toList, child?, Tuple.get?]

/-- What leaves every child as it is leaves the slots as they are. -/
theorem map_eq_self {f : α → α} {slots : Slots α n}
    (h : ∀ child ∈ slots.children, f child = child) : slots.map (Option.map f) = slots := by
  induction slots with
  | nil => rfl
  | cons slot rest ih =>
    cases slot with
    | none =>
      rw [children_cons_none] at h
      rw [Tuple.map, ih h, Option.map_none]
    | some child =>
      rw [children_cons_some, List.forall_mem_cons] at h
      rw [Tuple.map, ih h.2, Option.map_some, h.1]

@[simp] theorem children_map {γ : Type v} (f : α → γ) (slots : Slots α n) :
    children (slots.map (Option.map f)) = slots.children.map f := by
  simp only [children, Tuple.toList_map, List.filterMap_map, List.map_filterMap]
  rfl

end Slots

/-- The numbers that the values of a tuple are, where all of them are numbers. -/
def Tuple.numbers? : {n : Nat} → Tuple Value n → Option (Tuple Number n)
  | _, nil => some nil
  | _, cons v rest => do
    let number ← v.number?
    let numbers ← rest.numbers?
    some (cons number numbers)

/-- The numbers that the inputs of `node` are. Where some input is no number the failure lists the
types of all of them. -/
def expectNumeric {n : Nat} (node : String) (values : Tuple Value n) :
    Except EvalError (Tuple Number n) :=
  match values.numbers? with
  | some numbers => .ok numbers
  | none => .error (.nonNumeric node (values.toList.map Value.type))

end NumericTrees
