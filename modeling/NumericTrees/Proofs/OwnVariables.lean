import Mathlib.Data.List.Pairwise
import NumericTrees.Proofs.Recording
import NumericTrees.Proofs.Sharing

/-!
# What an evaluation depends on

An evaluation asks the store for the variables of its tree and for nothing else, and of these only
for the ones that it comes to. So stores that agree on them are the same to it, and what is written
through other variables does not show. Typing does not ask the store at all, so nothing that is done
in a session shows in the type of a tree.
-/

namespace NumericTrees

namespace Tree

variable {store store' : Store} {t : Tree} {before after : List Stop} {stop : Stop}

/-- Evaluating the tree takes the same course in both stores, with any limit and without one. -/
structure Alike (t : Tree) (store store' : Store) : Prop where
  evaluate_eq : t.evaluate store = t.evaluate store'
  evaluateWithin_eq : ∀ limits, t.evaluateWithin limits store = t.evaluateWithin limits store'

lemma Alike.of_evaluate_eq (h : t.evaluate store = t.evaluate store') : t.Alike store store' where
  evaluate_eq := h
  evaluateWithin_eq limits := by rw [Tree.evaluateWithin_eq, Tree.evaluateWithin_eq, h]

lemma evaluate_congr (h : ∀ v ∈ t.vars, store.value? v = store'.value? v) :
    t.evaluate store = t.evaluate store' := by
  induction t using Tree.induction with
  | terminal x =>
    rw [evaluate_terminal, evaluate_terminal]
    cases x with
    | literal l => rfl
    | host h => rfl
    | var v =>
      have hv : v ∈ (terminal (.var v)).vars := mem_vars_iff.mpr (by simp)
      rw [Terminal.evaluate, Terminal.evaluate, h v hv]
  | function op slots ih =>
    have hslots : Slots.evaluateAll op.identifier (evaluate store) slots =
        Slots.evaluateAll op.identifier (evaluate store') slots :=
      Slots.traverse_congr fun child hchild =>
        ih child hchild fun v hv => h v (mem_vars_function.mpr ⟨child, hchild, hv⟩)
    rw [evaluate_function, evaluate_function, hslots]

/-! ### What an evaluation comes to -/

lemma mem_walkSlots {n : Nat} {slots : Slots Tree n} {child : Tree} (node : String) (index : Nat)
    (hchild : child ∈ Slots.children slots) (hstop : stop ∈ child.walk) :
    stop ∈ walkSlots node index slots := by
  induction slots generalizing index with
  | nil => cases hchild
  | cons slot rest ih =>
    cases slot with
    | none =>
      rw [Slots.children_cons_none] at hchild
      rw [walkSlots]
      exact List.mem_cons_of_mem _ (ih (index + 1) hchild)
    | some first =>
      rw [Slots.children_cons_some] at hchild
      rw [walkSlots]
      obtain rfl | hchild := List.mem_cons.mp hchild
      · exact List.mem_append_left _ hstop
      · exact List.mem_append_right _ (ih (index + 1) hchild)

lemma leaf_mem_walk {x : Terminal} (h : x ∈ t.terminals) : .leaf x ∈ t.walk := by
  induction t using Tree.induction with
  | terminal y =>
    rw [terminals_terminal, List.mem_singleton] at h
    rw [h, walk]
    exact List.mem_singleton_self _
  | function op slots ih =>
    obtain ⟨child, hchild, hx⟩ := mem_terminals_function.mp h
    rw [walk]
    exact List.mem_append_left _ (mem_walkSlots op.identifier 0 hchild (ih child hchild hx))

/-- Whether a point is an obstacle depends on the variables that the walk has come to by then. -/
lemma obstacle?_congr (hwalk : t.walk = before ++ stop :: after)
    (h : ∀ v, .leaf (.var v) ∈ before ++ [stop] → store.value? v = store'.value? v) :
    stop.obstacle? store = stop.obstacle? store' := by
  cases stop with
  | emptySlot owner index => rfl
  | leaf x =>
    cases x with
    | literal l => rfl
    | host x => rfl
    | var v =>
      have hv := h v (List.mem_append_right _ (List.mem_singleton_self _))
      rw [Stop.obstacle?, Stop.obstacle?, Terminal.obstacle?, Terminal.obstacle?, hv]
  | node op slots =>
    -- All leaves below a node are behind by the time that the walk comes to the node itself.
    have hvalues : ∀ child ∈ Slots.children slots, value? store child = value? store' child := by
      intro child hchild
      have hchild' : child.evaluate store = child.evaluate store' := evaluate_congr fun v hv =>
        h v (List.mem_append_left _ ((walkSlots_suffix hwalk).subset
          (mem_walkSlots op.identifier 0 hchild (leaf_mem_walk (mem_vars_iff.mp hv)))))
      rw [value?, value?, hchild']
    rw [Stop.obstacle?, Stop.obstacle?, List.filterMap_congr hvalues]

lemma evaluate_of_split {e : EvalError} (hwalk : t.walk = before ++ stop :: after)
    (hclear : ∀ earlier ∈ before, earlier.obstacle? store = none)
    (hstop : stop.obstacle? store = some e) :
    t.evaluate store = ⟨before.filterMap Stop.tag? ++ stop.tag?.toList, .error e⟩ := by
  have hfailure : failure? (t.evaluate store).outcome = some e := by
    rw [← findSome?_walk, hwalk]
    exact List.findSome?_eq_some_iff.mpr ⟨before, stop, after, rfl, hstop, hclear⟩
  have htags : (t.evaluate store).tags = before.filterMap Stop.tag? ++ stop.tag?.toList := by
    have hne : stop.obstacle? store ≠ none := by simp [hstop]
    rw [tags_evaluate, hwalk, Stop.reached_of_split hclear hne, List.filterMap_append,
      List.filterMap_cons, List.filterMap_nil]
    cases stop.tag? <;> rfl
  generalize t.evaluate store = trace at hfailure htags
  obtain ⟨tags, outcome⟩ := trace
  cases outcome with
  | ok value => cases hfailure
  | error e' =>
    cases hfailure
    rw [← htags]

/-- Leaves behind the first obstacle do not count. -/
lemma evaluate_congr_of_split (hwalk : t.walk = before ++ stop :: after)
    (hclear : ∀ earlier ∈ before, earlier.obstacle? store = none)
    (hstop : stop.obstacle? store ≠ none)
    (h : ∀ v, .leaf (.var v) ∈ before ++ [stop] → store.value? v = store'.value? v) :
    t.evaluate store = t.evaluate store' := by
  obtain ⟨e, he⟩ := Option.ne_none_iff_exists'.mp hstop
  have hclear' : ∀ earlier ∈ before, earlier.obstacle? store' = none := by
    intro earlier hearlier
    obtain ⟨front, behind, rfl⟩ := List.append_of_mem hearlier
    rw [← hclear earlier hearlier]
    rw [List.append_assoc, List.cons_append] at hwalk
    refine (obstacle?_congr hwalk fun v hv => h v ?_).symm
    rw [List.mem_append, List.mem_singleton] at hv
    obtain hv | rfl := hv <;> simp [*]
  rw [evaluate_of_split hwalk hclear he,
    evaluate_of_split hwalk hclear' ((obstacle?_congr hwalk h).symm.trans he)]

end Tree

/-! ### Writing variables -/

namespace Store

/-- A store after assignments, the first of them first, some of which may be rejected. -/
def prepare (store : Store) (assignments : List (Variable × Value)) : Store :=
  assignments.foldl (fun store a => (store.setValue a.1 a.2).state) store

lemma value?_write_of_ne {store : Store} {v w : Variable} (h : w.cell ≠ v.cell)
    (content : Option Value) :
    (store.write v content).value? w = store.value? w := by
  rw [value?, value?, write, Array.getElem?_setIfInBounds_ne (Ne.symm h)]

lemma value?_assign_of_ne {store store' : Store} {v w : Variable} {value : Value}
    (hassign : store.assign v value = .ok store') (h : w.cell ≠ v.cell) :
    store'.value? w = store.value? w := by
  rw [assign] at hassign
  by_cases htype : value.type = v.type
  · rw [setValue_of_type htype] at hassign
    cases hassign
    exact value?_write_of_ne h _
  · rw [setValue_of_type_ne htype] at hassign
    cases hassign

lemma assign_answer (store store' : Store) (v : Variable) (value : Value) :
    (store.assign v value).map (fun _ => ()) = (store'.assign v value).map fun _ => () := by
  rw [assign, assign, setValue, setValue]
  split <;> rfl

lemma prepare_perm (store : Store) {assignments assignments' : List (Variable × Value)}
    (h : assignments.Perm assignments')
    (hdistinct : assignments.Pairwise fun a b => a.1.cell ≠ b.1.cell) :
    store.prepare assignments = store.prepare assignments' := by
  have hsymm : Std.Symm fun a b : Variable × Value => a.1.cell ≠ b.1.cell :=
    ⟨fun _ _ => Ne.symm⟩
  apply h.foldl_eq'
  intro a ha b hb store
  by_cases hab : a = b
  · rw [hab]
  · have hcell : a.1.cell ≠ b.1.cell := hdistinct.forall ha hb hab
    by_cases hfirst : a.2.type = a.1.type <;> by_cases hsecond : b.2.type = b.1.type <;>
      simp [setValue, write, hfirst, hsecond, Array.setIfInBounds_comm _ _ hcell]

end Store

/-! ### Sessions -/

namespace Session

/-- The type of a tree of the session, by its number. -/
def analyze (s : Session) (limits : Limits) (number : Nat) :
    Option (Except TypeError ValueType) :=
  s.trees[number]?.map (Tree.inferWithin limits)

/-- No command of a run writes to a variable of the tree. The latest command comes first. -/
def Spares (t : Tree) (history : List Command) : List Command → Prop
  | [] => True
  | command :: earlier => Spares t history earlier ∧
    ∀ handle v, command.target? = some handle →
      (after (earlier ++ history)).handles[handle]? = some v → ∀ w ∈ t.vars, v.cell ≠ w.cell

variable {history later : List Command} {number : Nat} {t : Tree}

lemma getElem?_trees_after (later : List Command) (h : (after history).trees[number]? = some t) :
    (after (later ++ history)).trees[number]? = some t := by
  induction later with
  | nil => exact h
  | cons command earlier ih =>
    rw [List.cons_append, after, perform]
    have hlt := (List.getElem?_eq_some_iff.mp ih).1
    rw [List.getElem?_append_left hlt, ih]

lemma value?_of_spares (h : (after history).trees[number]? = some t)
    (hspares : Spares t history later) {w : Variable} (hw : w ∈ t.vars) :
    (after (later ++ history)).store.value? w = (after history).store.value? w := by
  induction later with
  | nil => rfl
  | cons command earlier ih =>
    obtain ⟨hearlier, htarget⟩ := hspares
    have hmem : w ∈ (after (earlier ++ history)).handles :=
      mem_handles_of_mem_vars (List.mem_of_getElem? (getElem?_trees_after earlier h)) hw
    have heffect : command.effect? (earlier ++ history) w.cell = none :=
      effect?_eq_none hmem fun handle v hhandle hv => htarget handle v hhandle hv w hw
    rw [List.cons_append, value?_after_cons hmem, heffect, ih hearlier]

end Session

namespace Tree

open Session

/-- A tree sees its own variables alone, and of these the ones that its evaluation comes to; typing
sees none. Assignments to variables apart from one another may be made in any order, and no command
of a session that spares the variables of a tree shows in its evaluation. -/
theorem evaluation_sees_own_variables (t : Tree) :
    (∀ store store' : Store, (∀ v ∈ t.vars, store.value? v = store'.value? v) →
      t.Alike store store') ∧
    (∀ (store : Store) (v : Variable), (∀ w ∈ t.vars, w.cell ≠ v.cell) →
      t.Alike (store.clear v) store ∧
      ∀ value store', store.assign v value = .ok store' → t.Alike store' store) ∧
    (∀ (store : Store) (assignments assignments' : List (Variable × Value)),
      assignments.Perm assignments' →
      assignments.Pairwise (fun a b => a.1.cell ≠ b.1.cell) →
      store.prepare assignments = store.prepare assignments') ∧
    (∀ (store store' : Store) (v : Variable) (value : Value),
      (store.assign v value).map (fun _ => ()) = (store'.assign v value).map fun _ => ()) ∧
    (∀ history later number, (after history).trees[number]? = some t →
      (∀ limits, (after (later ++ history)).analyze limits number = some (t.inferWithin limits)) ∧
      (Spares t history later →
        t.Alike (after (later ++ history)).store (after history).store)) ∧
    (∀ (store store' : Store) (before : List Stop) (stop : Stop) (after : List Stop),
      t.walk = before ++ stop :: after →
      (∀ earlier ∈ before, earlier.obstacle? store = none) → stop.obstacle? store ≠ none →
      (∀ v, .leaf (.var v) ∈ before ++ [stop] → store.value? v = store'.value? v) →
      t.Alike store store') := by
  refine ⟨fun store store' h => .of_evaluate_eq (evaluate_congr h), ?_,
    fun store _ _ => store.prepare_perm, Store.assign_answer, ?_, ?_⟩
  · intro store v hv
    constructor
    · exact .of_evaluate_eq (evaluate_congr fun w hw => Store.value?_write_of_ne (hv w hw) none)
    · intro value store' hassign
      exact .of_evaluate_eq (evaluate_congr fun w hw => Store.value?_assign_of_ne hassign (hv w hw))
  · intro history later number hnumber
    constructor
    · intro limits
      rw [analyze, getElem?_trees_after later hnumber, Option.map_some]
    · intro hspares
      exact .of_evaluate_eq (evaluate_congr fun w hw => value?_of_spares hnumber hspares hw)
  · intro store store' before stop after hwalk hclear hstop h
    exact .of_evaluate_eq (evaluate_congr_of_split hwalk hclear hstop h)

/-- A quotient of two variables beside a third one. Where the dividend has no value the divisor does
not count. -/
theorem evaluation_sees_own_variables_quotient :
    let x : Variable := ⟨"x", .numeric .int32, 0⟩
    let y : Variable := ⟨"y", .numeric .int32, 1⟩
    let z : Variable := ⟨"z", .bool, 2⟩
    let one : Value := .number (.int32 1)
    let t := division (.zero false) (some (ofVariable x)) (some (ofVariable y))
    let history : List Command := [.build t, .declare "z" .bool, .declare "y" (.numeric .int32),
      .declare "x" (.numeric .int32)]
    t.Alike ⟨#[some one, none, none]⟩ ⟨#[some one, none, some (.bool true)]⟩ ∧
    t.Alike (Store.clear ⟨#[some one, some one, some (.bool true)]⟩ z)
      ⟨#[some one, some one, some (.bool true)]⟩ ∧
    Store.prepare ⟨#[none, none, none]⟩ [(x, one), (z, .bool true)] =
      Store.prepare ⟨#[none, none, none]⟩ [(z, .bool true), (x, one)] ∧
    t.Alike (after ([.assign 2 (.bool true)] ++ history)).store (after history).store ∧
    t.Alike ⟨#[none, some one]⟩ ⟨#[none, none]⟩ := by
  intro x y z one t history
  obtain ⟨hagree, hwrite, horder, -, hsession, hfront⟩ := evaluation_sees_own_variables t
  have hwalk : t.walk = [] ++ .leaf (.var x) :: [.leaf (.var y),
      .node (.division (.zero false))
        (.cons (some (ofVariable x)) (.cons (some (ofVariable y)) .nil))] := rfl
  refine ⟨hagree _ _ (by decide), (hwrite _ z (by decide)).1, ?_, ?_, ?_⟩
  · exact horder _ _ _ (.swap _ _ _) (by decide)
  · refine (hsession history [.assign 2 (.bool true)] 0 rfl).2 ⟨trivial, ?_⟩
    rintro handle v hhandle hv
    cases hhandle
    cases hv
    decide
  · refine hfront _ _ _ _ _ hwalk (by simp) (by decide) ?_
    intro v hv
    cases List.mem_singleton.mp hv
    rfl

end Tree

end NumericTrees
