import NumericTrees.Proofs.Grafting

/-!
# What stands where

A position of a tree is a path that leads to a node of it, and its label is what that node is apart
from its children: a terminal, or an operation with its protection value. The labels at all paths
determine the tree, so that trees can be compared one position at a time.
-/

namespace NumericTrees

namespace Tuple

variable {α : Type} {n : Nat} {t t' : Tuple α n}

lemma get?_isSome_iff {i : Nat} : (t.get? i).isSome ↔ i < n := by
  rw [get?_eq_getElem?]
  simp

lemma get?_of_le {i : Nat} (h : n ≤ i) : t.get? i = none := by
  rw [get?_eq_getElem?, List.getElem?_eq_none_iff]
  simp [h]

lemma get?_set_ne {i j : Nat} (h : i ≠ j) (b : α) : (t.set i b).get? j = t.get? j := by
  rw [get?_eq_getElem?, get?_eq_getElem?, toList_set, List.getElem?_set_ne h]

lemma ext_get? (h : ∀ i, t.get? i = t'.get? i) : t = t' := by
  apply toList_injective
  apply List.ext_getElem?
  intro i
  rw [← get?_eq_getElem?, ← get?_eq_getElem?, h]

end Tuple

namespace Tree

/-- What the root of a tree is apart from its children. -/
def label : Tree → Terminal ⊕ Operation
  | terminal x => .inl x
  | function op _ => .inr op

/-- What stands at the end of a path. -/
def label? (t : Tree) (path : List Nat) : Option (Terminal ⊕ Operation) :=
  (t.descendant? path).map label

lemma arity_eq (t : Tree) : t.arity = t.label.elim Terminal.arity Operation.arity := by
  cases t <;> rfl

@[simp] lemma label?_nil (t : Tree) : t.label? [] = some t.label := rfl

lemma label?_append (t : Tree) (path path' : List Nat) :
    t.label? (path ++ path') = (t.descendant? path).bind (·.label? path') := by
  rw [label?, descendant?_append, Option.map_bind]
  rfl

lemma label?_cons (t : Tree) (index : Nat) (path : List Nat) :
    t.label? (index :: path) = (t.child? index).bind (·.label? path) := by
  rw [← descendant?_singleton, ← label?_append, List.singleton_append]

lemma label?_eq_none_iff {t : Tree} {path : List Nat} :
    t.label? path = none ↔ t.descendant? path = none := Option.map_eq_none_iff

lemma child?_function (op : Operation) (slots : Slots Tree op.arity) (index : Nat) :
    (function op slots).child? index = (slots.get? index).join := rfl

lemma HostFree.descendant {t n : Tree} {path : List Nat} (h : t.HostFree)
    (hn : t.descendant? path = some n) : n.HostFree := by
  induction path generalizing t with
  | nil =>
    cases hn
    exact h
  | cons index path ih =>
    obtain ⟨child, hchild, hrest⟩ := descendant?_cons hn
    cases t with
    | terminal x => cases hchild
    | function op slots => exact ih (h.child hchild) hrest

/-- A tree is given by what stands at the end of every path. -/
lemma eq_of_label? {s t : Tree} (h : ∀ path, s.label? path = t.label? path) : s = t := by
  induction s using Tree.induction generalizing t with
  | terminal x =>
    have hroot := h []
    cases t with
    | terminal y =>
      cases hroot
      rfl
    | function op slots => cases hroot
  | function op slots ih =>
    have hroot := h []
    cases t with
    | terminal y => cases hroot
    | function op' slots' =>
      cases hroot
      congr 1
      apply Tuple.ext_get?
      intro i
      have hchild : ∀ path, ((slots.get? i).join.bind fun child => child.label? path) =
          (slots'.get? i).join.bind fun child => child.label? path := by
        intro path
        rw [← child?_function, ← child?_function, ← label?_cons, ← label?_cons]
        exact h (i :: path)
      by_cases hi : i < op.arity
      · obtain ⟨slot, hslot⟩ := Option.isSome_iff_exists.mp (slots.get?_isSome_iff.mpr hi)
        obtain ⟨slot', hslot'⟩ := Option.isSome_iff_exists.mp (slots'.get?_isSome_iff.mpr hi)
        rw [hslot, hslot', Option.join_some, Option.join_some] at hchild
        rw [hslot, hslot']
        cases slot with
        | none =>
          cases slot' with
          | none => rfl
          | some child' => cases hchild []
        | some child =>
          cases slot' with
          | none => cases hchild []
          | some child' =>
            have hmem : child ∈ Slots.children slots :=
              Slots.mem_children_of_child? (Option.join_eq_some_iff.mpr hslot)
            rw [ih child hmem hchild]
      · rw [Tuple.get?_of_le (Nat.le_of_not_lt hi), Tuple.get?_of_le (Nat.le_of_not_lt hi)]

lemma descendant?_eq_of_label? {s t : Tree} {path : List Nat}
    (h : ∀ path', s.label? (path ++ path') = t.label? (path ++ path')) :
    s.descendant? path = t.descendant? path := by
  have hroot := h []
  simp only [label?_append] at h
  rw [List.append_nil] at hroot
  cases hs : s.descendant? path with
  | none =>
    rw [label?, hs, Option.map_none] at hroot
    rw [label?_eq_none_iff.mp hroot.symm]
  | some n =>
    cases ht : t.descendant? path with
    | none =>
      rw [label?, label?, hs, ht] at hroot
      cases hroot
    | some m =>
      rw [hs, ht] at h
      rw [eq_of_label? h]

end Tree

end NumericTrees
