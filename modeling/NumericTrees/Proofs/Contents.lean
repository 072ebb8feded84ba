import Mathlib.Tactic.Lemma
import NumericTrees.Tree.Basic

/-!
# What a tree contains

The terminals, variables and operations of a tree, wherever in it they stand, and whether some slot
in it is empty. Each is a fold over the tree, and for a function node it is read off the children
and the slots of the node.
-/

namespace NumericTrees

namespace Terminal

def isHost : Terminal → Bool
  | literal _ | var _ => false
  | host _ => true

def var? : Terminal → Option Variable
  | var v => some v
  | literal _ | host _ => none

/-- The type that a terminal reports for no inputs. -/
def type? (t : Terminal) : Option ValueType := t.infer []

lemma check_of_not_host {t : Terminal} (h : t.isHost = false) :
    ∃ type, t.type? = some type ∧ t.check = .ok type := by
  cases t with
  | literal l => exact ⟨l.value.type, rfl, rfl⟩
  | var v => exact ⟨v.type, rfl, rfl⟩
  | host h => cases h

end Terminal

namespace Tree

/-- The terminals of a tree from the left to the right. -/
def terminals : Tree → List Terminal :=
  fold (fun t => [t]) fun _ slots => (Slots.children slots).flatten

/-- The variables of a tree from the left to the right, each as often as it occurs. -/
def vars (t : Tree) : List Variable := t.terminals.filterMap Terminal.var?

/-- The operations of a tree, those below a node in front of the node's own. -/
def operations : Tree → List Operation :=
  fold (fun _ => []) fun op slots => (Slots.children slots).flatten ++ [op]

/-- Whether no slot anywhere in a tree is empty. -/
def isComplete : Tree → Bool :=
  fold (fun _ => true) fun _ slots => slots.toList.all (·.getD false)

/-- Whether all terminals of a tree are literals and variables. -/
def HostFree (t : Tree) : Prop := ∀ x ∈ t.terminals, x.isHost = false

instance (t : Tree) : Decidable t.HostFree :=
  inferInstanceAs (Decidable (∀ x ∈ t.terminals, x.isHost = false))

@[simp] lemma terminals_terminal (x : Terminal) : (terminal x).terminals = [x] := by
  rw [terminals, fold_terminal]

lemma terminals_function (op : Operation) (slots : Slots Tree op.arity) :
    (function op slots).terminals = (Slots.children slots).flatMap terminals := by
  rw [terminals, fold_function, Slots.children_map, List.flatMap_def]

lemma mem_terminals_function {op : Operation} {slots : Slots Tree op.arity} {x : Terminal} :
    x ∈ (function op slots).terminals ↔ ∃ child ∈ Slots.children slots, x ∈ child.terminals := by
  rw [terminals_function, List.mem_flatMap]

lemma mem_vars_iff {t : Tree} {v : Variable} : v ∈ t.vars ↔ .var v ∈ t.terminals := by
  rw [vars, List.mem_filterMap]
  constructor
  · rintro ⟨x, hx, hv⟩
    cases x with
    | var w =>
      cases hv
      exact hx
    | literal l => cases hv
    | host h => cases hv
  · exact fun h => ⟨.var v, h, rfl⟩

lemma mem_vars_function {op : Operation} {slots : Slots Tree op.arity} {v : Variable} :
    v ∈ (function op slots).vars ↔
      ∃ child ∈ Slots.children slots, v ∈ child.vars := by
  simp only [mem_vars_iff, mem_terminals_function]

@[simp] lemma operations_terminal (x : Terminal) : (terminal x).operations = [] := by
  rw [operations, fold_terminal]

lemma mem_operations_function {op o : Operation} {slots : Slots Tree op.arity} :
    o ∈ (function op slots).operations ↔
      (∃ child ∈ Slots.children slots, o ∈ child.operations) ∨ o = op := by
  rw [operations, fold_function, Slots.children_map, ← List.flatMap_def, List.mem_append,
    List.mem_flatMap, List.mem_singleton]

@[simp] lemma isComplete_terminal (x : Terminal) : (terminal x).isComplete = true := by
  rw [isComplete, fold_terminal]

lemma isComplete_function {op : Operation} {slots : Slots Tree op.arity} :
    (function op slots).isComplete = true ↔
      ∀ slot ∈ slots.toList, ∃ child, slot = some child ∧ child.isComplete = true := by
  rw [isComplete, fold_function, Tuple.toList_map, List.all_eq_true]
  constructor
  · intro h slot hslot
    cases slot with
    | none => exact absurd (h none (List.mem_map.mpr ⟨none, hslot, rfl⟩)) (by simp)
    | some child => exact ⟨child, rfl, h _ (List.mem_map.mpr ⟨some child, hslot, rfl⟩)⟩
  · intro h answer hanswer
    obtain ⟨slot, hslot, rfl⟩ := List.mem_map.mp hanswer
    obtain ⟨child, rfl, hchild⟩ := h slot hslot
    exact hchild

lemma HostFree.child {op : Operation} {slots : Slots Tree op.arity} {child : Tree}
    (h : (function op slots).HostFree) (hchild : child ∈ Slots.children slots) :
    child.HostFree :=
  fun x hx => h x (mem_terminals_function.mpr ⟨child, hchild, hx⟩)

end Tree

end NumericTrees
