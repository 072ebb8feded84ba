/-!
# Tuples of a given length

Lists whose length is part of the type. They hold the slots of a node, the values its children
produce and the operands of its operation, so that no step in between can lose or invent one.
-/

namespace NumericTrees

universe u v

/-- A list of exactly `n` elements. -/
inductive Tuple (α : Type u) : Nat → Type u where
  | nil : Tuple α 0
  | cons {n : Nat} (head : α) (tail : Tuple α n) : Tuple α (n + 1)

namespace Tuple

variable {α : Type u} {β : Type v}

def toList : {n : Nat} → Tuple α n → List α
  | _, nil => []
  | _, cons a rest => a :: rest.toList

def ofList : (items : List α) → Tuple α items.length
  | [] => nil
  | a :: rest => cons a (ofList rest)

/-- The tuple that holds the same element everywhere. -/
def replicate (a : α) : (n : Nat) → Tuple α n
  | 0 => nil
  | n + 1 => cons a (replicate a n)

def map (f : α → β) : {n : Nat} → Tuple α n → Tuple β n
  | _, nil => nil
  | _, cons a rest => cons (f a) (rest.map f)

/-- The element at an index. -/
def get? : {n : Nat} → Tuple α n → Nat → Option α
  | _, nil, _ => none
  | _, cons a _, 0 => some a
  | _, cons _ rest, i + 1 => rest.get? i

/-- The tuple with another element at an index; an index beyond the end changes nothing. -/
def set : {n : Nat} → Tuple α n → Nat → α → Tuple α n
  | _, nil, _, _ => nil
  | _, cons _ rest, 0, b => cons b rest
  | _, cons a rest, i + 1, b => cons a (rest.set i b)

@[simp] theorem length_toList {n : Nat} (t : Tuple α n) : t.toList.length = n := by
  induction t with
  | nil => rfl
  | cons a rest ih => simp [toList, ih]

@[simp] theorem toList_map {n : Nat} (f : α → β) (t : Tuple α n) :
    (t.map f).toList = t.toList.map f := by
  induction t with
  | nil => rfl
  | cons a rest ih => simp [map, toList, ih]

@[simp] theorem toList_ofList (items : List α) : (ofList items).toList = items := by
  induction items with
  | nil => rfl
  | cons a rest ih => simp [ofList, toList, ih]

theorem get?_eq_getElem? {n : Nat} (t : Tuple α n) (i : Nat) : t.get? i = t.toList[i]? := by
  induction t generalizing i with
  | nil => rfl
  | cons a rest ih =>
    cases i with
    | zero => rfl
    | succ i => simp [get?, toList, ih]

theorem toList_set {n : Nat} (t : Tuple α n) (i : Nat) (b : α) :
    (t.set i b).toList = t.toList.set i b := by
  induction t generalizing i with
  | nil => rfl
  | cons a rest ih =>
    cases i with
    | zero => rfl
    | succ i => simp [set, toList, ih]

theorem map_map {γ : Type v} {n : Nat} (g : β → γ) (f : α → β) (t : Tuple α n) :
    (t.map f).map g = t.map (g ∘ f) := by
  induction t with
  | nil => rfl
  | cons a rest ih => simp [map, ih]

end Tuple

end NumericTrees
