import Mathlib.Tactic.Lemma
import NumericTrees.Variable

/-!
# Runs on variables

What becomes of a store when variables are declared, assigned and cleared in any order and through
any of their copies. A copy of a variable is the variable itself, so the handles that there are at
any time are the variables declared so far. The invariant of a run is that a variable has a cell
of its own, which is empty or holds a value of the declared type.
-/

namespace NumericTrees

namespace Store

lemma size_allocate (store : Store) (name : String) (type : ValueType) (content : Option Value) :
    (store.allocate name type content).2.cells.size = store.cells.size + 1 := Array.size_push _

lemma value?_allocate_of_lt {store : Store} {v : Variable} (h : v.cell < store.cells.size)
    (name : String) (type : ValueType) (content : Option Value) :
    (store.allocate name type content).2.value? v = store.value? v := by
  simp only [value?, allocate, Array.getElem?_push, if_neg (Nat.ne_of_lt h)]

lemma value?_allocate_self (store : Store) (name : String) (type : ValueType)
    (content : Option Value) :
    (store.allocate name type content).2.value? (store.allocate name type content).1 = content := by
  simp [value?, allocate]

/-- Writing a cell changes what the variables of that cell hold and nothing else. -/
lemma value?_write {store : Store} {v : Variable} (h : v.cell < store.cells.size)
    (w : Variable) (content : Option Value) :
    (store.write v content).value? w = if v.cell = w.cell then content else store.value? w := by
  by_cases hcell : v.cell = w.cell
  · simp [value?, write, ← hcell, h]
  · simp [value?, write, hcell]

/-- After an assignment the variables of the cell hold the new value if it has the declared type. -/
lemma value?_setValue {store : Store} {v : Variable} (h : v.cell < store.cells.size)
    (w : Variable) (value : Value) :
    (store.setValue v value).state.value? w =
      if v.cell = w.cell ∧ v.type = value.type then some value else store.value? w := by
  by_cases htype : value.type = v.type
  · rw [setValue_of_type htype, value?_write h]
    simp [htype]
  · rw [setValue_of_type_ne htype]
    simp [Ne.symm htype]

/-- Neither a value that is taken nor one that is refused makes or removes a cell. -/
lemma size_setValue (store : Store) (v : Variable) (value : Value) :
    (store.setValue v value).state.cells.size = store.cells.size := by
  by_cases htype : value.type = v.type
  · rw [setValue_of_type htype]
    exact Array.size_setIfInBounds
  · rw [setValue_of_type_ne htype]

end Store

/-- What can be done with variables. -/
inductive Action where
  | declare (name : String) (type : ValueType)
  | declareWith (name : String) (value : Value)
  | assign (v : Variable) (value : Value)
  | clear (v : Variable)

/-- A store and the variables declared in it, the latest first. -/
structure Bindings where
  store : Store
  vars : List Variable

namespace Bindings

/-- The bindings before anything is declared. -/
def initial : Bindings := ⟨.empty, []⟩

def extend (b : Bindings) (declared : Variable × Store) : Bindings :=
  ⟨declared.2, declared.1 :: b.vars⟩

/-- The bindings after an action, also after an assignment that was rejected. An action through a
variable that was never declared changes nothing. -/
def perform (b : Bindings) : Action → Bindings
  | .declare name type => b.extend (b.store.declare name type)
  | .declareWith name value => b.extend (b.store.declareWith name value)
  | .assign v value =>
    if v ∈ b.vars then { b with store := (b.store.setValue v value).state } else b
  | .clear v => if v ∈ b.vars then { b with store := b.store.clear v } else b

def run (actions : List Action) : Bindings := actions.foldl perform initial

/-- Every declared variable has a cell, shares it with no other variable, and holds nothing or a
value of its type. -/
structure WellTyped (b : Bindings) : Prop where
  cell_lt : ∀ v ∈ b.vars, v.cell < b.store.cells.size
  eq_of_cell : ∀ v ∈ b.vars, ∀ w ∈ b.vars, v.cell = w.cell → v = w
  typed : ∀ v ∈ b.vars, ∀ value, b.store.value? v = some value → value.type = v.type

lemma wellTyped_initial : initial.WellTyped where
  cell_lt v hv := by cases hv
  eq_of_cell v hv := by cases hv
  typed v hv := by cases hv

lemma WellTyped.extend {b : Bindings} (h : b.WellTyped) (name : String) (type : ValueType)
    (content : Option Value) (hcontent : ∀ value, content = some value → value.type = type) :
    (b.extend (b.store.allocate name type content)).WellTyped := by
  have hsize := b.store.size_allocate name type content
  constructor
  case cell_lt =>
    intro v hv
    change v.cell < (b.store.allocate name type content).2.cells.size
    rw [hsize]
    obtain rfl | hv := List.mem_cons.mp hv
    · exact Nat.lt_succ_self _
    · exact Nat.lt_succ_of_lt (h.cell_lt v hv)
  case eq_of_cell =>
    intro v hv w hw hcell
    obtain rfl | hv := List.mem_cons.mp hv
    · obtain rfl | hw := List.mem_cons.mp hw
      · rfl
      · exact absurd hcell (Nat.ne_of_gt (h.cell_lt w hw))
    · obtain rfl | hw := List.mem_cons.mp hw
      · exact absurd hcell (Nat.ne_of_lt (h.cell_lt v hv))
      · exact h.eq_of_cell v hv w hw hcell
  case typed =>
    intro v hv value hvalue
    obtain rfl | hv := List.mem_cons.mp hv
    · change (b.store.allocate name type content).2.value? _ = _ at hvalue
      rw [Store.value?_allocate_self] at hvalue
      exact hcontent value hvalue
    · change (b.store.allocate name type content).2.value? v = _ at hvalue
      rw [Store.value?_allocate_of_lt (h.cell_lt v hv)] at hvalue
      exact h.typed v hv value hvalue

lemma WellTyped.write {b : Bindings} (h : b.WellTyped) {v : Variable} (hv : v ∈ b.vars)
    (content : Option Value) (hcontent : ∀ value, content = some value → value.type = v.type) :
    WellTyped ⟨b.store.write v content, b.vars⟩ := by
  constructor
  case cell_lt =>
    intro w hw
    change w.cell < (b.store.cells.setIfInBounds v.cell content).size
    rw [Array.size_setIfInBounds]
    exact h.cell_lt w hw
  case eq_of_cell => exact h.eq_of_cell
  case typed =>
    intro w hw value hvalue
    -- Among the declared variables only `v` itself has the written cell.
    rw [Store.value?_write (h.cell_lt v hv)] at hvalue
    by_cases hcell : v.cell = w.cell
    · rw [if_pos hcell] at hvalue
      rw [h.eq_of_cell w hw v hv hcell.symm]
      exact hcontent value hvalue
    · rw [if_neg hcell] at hvalue
      exact h.typed w hw value hvalue

lemma WellTyped.perform {b : Bindings} (h : b.WellTyped) (action : Action) :
    (b.perform action).WellTyped := by
  cases action with
  | declare name type =>
    exact h.extend name type none (fun value hvalue => by cases hvalue)
  | declareWith name value =>
    refine h.extend name value.type (some value) ?_
    rintro other hother
    cases hother
    rfl
  | assign v value =>
    rw [Bindings.perform]
    by_cases hv : v ∈ b.vars
    · rw [if_pos hv]
      by_cases htype : value.type = v.type
      · rw [Store.setValue_of_type htype]
        refine h.write hv (some value) ?_
        rintro other hother
        cases hother
        exact htype
      · rw [Store.setValue_of_type_ne htype]
        exact h
    · rw [if_neg hv]
      exact h
  | clear v =>
    rw [Bindings.perform]
    by_cases hv : v ∈ b.vars
    · rw [if_pos hv]
      exact h.write hv none (fun value hvalue => by cases hvalue)
    · rw [if_neg hv]
      exact h

/-- No run ever binds a variable to a value of another type than the declared one. -/
theorem wellTyped_run (actions : List Action) : (run actions).WellTyped := by
  have hrun : ∀ (actions : List Action) (b : Bindings), b.WellTyped →
      (actions.foldl perform b).WellTyped := by
    intro actions
    induction actions with
    | nil => exact fun b h => h
    | cons action actions ih => exact fun b h => ih (b.perform action) (h.perform action)
  exact hrun actions initial wellTyped_initial

end Bindings

end NumericTrees
