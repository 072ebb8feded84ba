import NumericTrees.Proofs.Traversal
import NumericTrees.Proofs.Widening

/-!
# The walk through a tree

The walk comes to the slots of a node in their order and to the node itself after them. Whatever
keeps a tree from having a value is an obstacle on it, and an evaluation ends with the first one.
-/

namespace NumericTrees

/-- A point that the walk through a tree comes to. -/
inductive Stop where
  | emptySlot (owner : String) (index : Nat)
  | leaf (t : Terminal)
  | node (op : Operation) (slots : Slots Tree op.arity)

namespace Tree

mutual

/-- All points of a tree in the order in which the walk comes to them. -/
def walk : Tree → List Stop
  | terminal t => [.leaf t]
  | function op slots => walkSlots op.identifier 0 slots ++ [.node op slots]

/-- The points in and below the slots of a node, the first of them having the given index. -/
def walkSlots (node : String) : {n : Nat} → (index : Nat) → Slots Tree n → List Stop
  | _, _, .nil => []
  | _, index, .cons none rest => .emptySlot node index :: walkSlots node (index + 1) rest
  | _, index, .cons (some child) rest => child.walk ++ walkSlots node (index + 1) rest

end

/-- The value of a tree where it has one. -/
def value? (store : Store) (t : Tree) : Option Value := (t.evaluate store).outcome.toOption

end Tree

def failure? {α : Type} : Except EvalError α → Option EvalError
  | .ok _ => none
  | .error e => some e

/-- The obstacle that a terminal is. -/
def Terminal.obstacle? (store : Store) : Terminal → Option EvalError
  | literal _ => none
  | var v => if store.value? v = none then some (.unboundVariable v.name) else none
  | host h => failure? h.outcome

/-- The obstacle at a point of the walk: an empty slot, a variable without a value, a failing
terminal of the host, or an operation one of whose children is no number. -/
def Stop.obstacle? (store : Store) : Stop → Option EvalError
  | emptySlot owner index => some (.missingChild owner index)
  | leaf t => t.obstacle? store
  | node op slots =>
    let values := (Slots.children slots).filterMap (Tree.value? store)
    if values.any fun value => !value.type.isNumeric then
      some (.nonNumeric op.identifier (values.map Value.type))
    else none

namespace Tree

variable {store : Store}

lemma findSome?_walkSlots {n : Nat} (node : String) (index : Nat) (slots : Slots Tree n)
    (h : ∀ child ∈ Slots.children slots,
      child.walk.findSome? (Stop.obstacle? store) = failure? (child.evaluate store).outcome) :
    (walkSlots node index slots).findSome? (Stop.obstacle? store) =
      failure? (Slots.visit (.missingChild node) (fun child => (child.evaluate store).outcome) index
        slots) := by
  induction slots generalizing index with
  | nil => rfl
  | cons slot rest ih =>
    cases slot with
    | none => rfl
    | some child =>
      rw [Slots.children_cons_some, List.forall_mem_cons] at h
      obtain ⟨hchild, hrest⟩ := h
      rw [walkSlots, List.findSome?_append, hchild, ih (index + 1) hrest]
      cases houtcome : (child.evaluate store).outcome with
      | error e =>
        rw [Slots.visit_cons_error index rest houtcome]
        rfl
      | ok value =>
        rw [Slots.visit_cons_ok index rest houtcome]
        cases Slots.visit (.missingChild node) (fun child => (child.evaluate store).outcome)
          (index + 1) rest <;> rfl

lemma filterMap_value?_children {n : Nat} {slots : Slots Tree n} {index : Nat}
    {missing : Nat → EvalError} {values : Tuple Value n}
    (h : Slots.visit missing (fun child => (child.evaluate store).outcome) index slots =
      .ok values) :
    (Slots.children slots).filterMap (value? store) = values.toList := by
  have hslots := Slots.visit_eq_ok_iff.mp h
  rw [Slots.children]
  generalize slots.toList = occupants at hslots
  generalize values.toList = results at hslots
  induction hslots with
  | nil => rfl
  | @cons slot value _ _ hslot _ ih =>
    obtain ⟨child, rfl, houtcome⟩ := hslot
    have hvalue : value? store child = some value := by
      rw [value?, houtcome, Except.toOption]
    rw [List.filterMap_cons_some (f := id) rfl, List.filterMap_cons_some hvalue, ih]

lemma failure?_apply (op : Operation) (values : Tuple Value op.arity) :
    failure? (op.apply values) =
      if values.toList.any fun value => !value.type.isNumeric then
        some (.nonNumeric op.identifier (values.toList.map Value.type))
      else none := by
  have hany : (values.toList.any fun value => !value.type.isNumeric) =
      !ValueType.allNumeric (values.toList.map Value.type) := by
    rw [ValueType.allNumeric, List.all_map, List.not_all_eq_any_not]
    rfl
  cases hnumeric : ValueType.allNumeric (values.toList.map Value.type) with
  | true =>
    obtain ⟨operands, rfl⟩ := Tuple.exists_numbers hnumeric
    rw [hany, hnumeric, op.apply_number operands]
    rfl
  | false =>
    rw [hany, hnumeric, op.apply_of_not_allNumeric hnumeric]
    rfl

lemma failure?_evaluate_terminal (x : Terminal) :
    failure? (x.evaluate store).outcome = x.obstacle? store := by
  cases x with
  | literal l => rfl
  | host h => rfl
  | var v =>
    rw [Terminal.evaluate, Terminal.obstacle?]
    cases store.value? v <;> rfl

/-- The first obstacle on the walk through a tree is the failure of evaluating it. -/
lemma findSome?_walk (t : Tree) :
    t.walk.findSome? (Stop.obstacle? store) = failure? (t.evaluate store).outcome := by
  induction t using Tree.induction with
  | terminal x =>
    rw [walk, List.findSome?_singleton, Stop.obstacle?, evaluate_terminal,
      failure?_evaluate_terminal]
  | function op slots ih =>
    rw [walk, List.findSome?_append, findSome?_walkSlots op.identifier 0 slots ih,
      outcome_evaluate_function]
    cases hvisit : Slots.visit (.missingChild op.identifier)
      (fun child => (child.evaluate store).outcome) 0 slots with
    | error e => rfl
    | ok values =>
      have hvalues := filterMap_value?_children hvisit
      simp only [failure?, Option.none_or, List.findSome?_singleton, Stop.obstacle?, hvalues]
      exact (failure?_apply op values).symm

lemma eq_append_cons_or {α : Type} {a : α} {left right before after : List α}
    (h : left ++ right = before ++ a :: after) :
    (∃ rest, left = before ++ a :: rest) ∨
      ∃ between, before = left ++ between ∧ right = between ++ a :: after := by
  obtain ⟨between, hbefore, hright⟩ | ⟨rest, hleft, hafter⟩ := List.append_eq_append_iff.mp h
  · exact .inr ⟨between, hbefore, hright⟩
  · cases rest with
    | nil => exact .inr ⟨[], by simpa using hleft.symm, hafter.symm⟩
    | cons b rest =>
      rw [List.cons_append, List.cons.injEq] at hafter
      obtain ⟨rfl, -⟩ := hafter
      exact .inl ⟨rest, hleft⟩

lemma walkSlots_suffix_of_children {op : Operation} {slots : Slots Tree op.arity} {n : Nat}
    {row : Slots Tree n} {node : String} {index : Nat} {before after : List Stop}
    (hchildren : ∀ child ∈ Slots.children row, ∀ before after,
      child.walk = before ++ .node op slots :: after →
        walkSlots op.identifier 0 slots <:+ before)
    (h : walkSlots node index row = before ++ .node op slots :: after) :
    walkSlots op.identifier 0 slots <:+ before := by
  induction row generalizing index before after with
  | nil => simp [walkSlots] at h
  | cons slot rest ih =>
    cases slot with
    | none =>
      rw [Slots.children_cons_none] at hchildren
      rw [walkSlots] at h
      cases before with
      | nil => simp at h
      | cons stop before =>
        rw [List.cons_append, List.cons.injEq] at h
        exact (ih hchildren h.2).trans (List.suffix_cons stop before)
    | some child =>
      rw [Slots.children_cons_some, List.forall_mem_cons] at hchildren
      rw [walkSlots] at h
      obtain ⟨below, hchild⟩ | ⟨between, rfl, hrest⟩ := eq_append_cons_or h
      · exact hchildren.1 before below hchild
      · exact (ih hchildren.2 hrest).trans (List.suffix_append child.walk between)

/-- The walk comes to a node right after the slots of the node. -/
lemma walkSlots_suffix {t : Tree} {op : Operation} {slots : Slots Tree op.arity}
    {before after : List Stop} (h : t.walk = before ++ .node op slots :: after) :
    walkSlots op.identifier 0 slots <:+ before := by
  induction t using Tree.induction generalizing before after with
  | terminal x =>
    rw [walk, eq_comm, List.append_eq_singleton_iff] at h
    simp at h
  | function root row ih =>
    rw [walk] at h
    -- The node stands below one of the slots of the root, or it is the root.
    obtain ⟨rest, hrow⟩ | ⟨between, rfl, hroot⟩ := eq_append_cons_or h
    · exact walkSlots_suffix_of_children (fun child hchild _ _ => ih child hchild) hrow
    · rw [eq_comm, List.append_eq_singleton_iff] at hroot
      obtain ⟨rfl, hroot⟩ | ⟨-, hroot⟩ := hroot
      · cases hroot
        exact ⟨[], (List.append_nil _).symm⟩
      · cases hroot

/-- Where the walk came to a node without an obstacle, every slot holds a child with a value. -/
lemma exists_value_of_walk {t : Tree} {op : Operation} {slots : Slots Tree op.arity}
    {before after : List Stop} (h : t.walk = before ++ .node op slots :: after)
    (hclear : ∀ stop ∈ before, stop.obstacle? store = none) {slot : Option Tree}
    (hslot : slot ∈ slots.toList) :
    ∃ child value, slot = some child ∧ (child.evaluate store).outcome = .ok value := by
  -- The points below the node are all behind, so visiting its slots met no failure.
  have hnone : (walkSlots op.identifier 0 slots).findSome? (Stop.obstacle? store) = none :=
    List.findSome?_eq_none_iff.mpr fun stop hstop =>
      hclear stop ((walkSlots_suffix h).subset hstop)
  rw [findSome?_walkSlots op.identifier 0 slots fun child _ => findSome?_walk child] at hnone
  cases hvisit : Slots.visit (.missingChild op.identifier)
    (fun child => (child.evaluate store).outcome) 0 slots with
  | error e =>
    rw [hvisit] at hnone
    cases hnone
  | ok values =>
    obtain ⟨value, -, child, hchild, houtcome⟩ :=
      forall₂_mem_left (Slots.visit_eq_ok_iff.mp hvisit) hslot
    exact ⟨child, value, hchild, houtcome⟩

/-- Evaluation reports exactly the first obstacle on the walk. It answers when there is none, its
failure is the one of the first obstacle, and wherever the walk comes to a node without an obstacle,
the children in all of the node's slots have values, which are the inputs its failure lists. -/
theorem evaluate_first_obstacle (store : Store) (t : Tree) :
    ((∃ value, (t.evaluate store).outcome = .ok value) ↔
      ∀ stop ∈ t.walk, stop.obstacle? store = none) ∧
    (∀ e, (t.evaluate store).outcome = .error e ↔
      ∃ before stop after, t.walk = before ++ stop :: after ∧
        (∀ earlier ∈ before, earlier.obstacle? store = none) ∧
        stop.obstacle? store = some e) ∧
    (∀ before op slots after, t.walk = before ++ .node op slots :: after →
      (∀ earlier ∈ before, earlier.obstacle? store = none) →
      ∀ slot ∈ slots.toList, ∃ child value,
        slot = some child ∧ (child.evaluate store).outcome = .ok value) := by
  have hwalk : t.walk.findSome? (Stop.obstacle? store) = failure? (t.evaluate store).outcome :=
    findSome?_walk t
  refine ⟨?_, fun e => ?_, fun before op slots after hsplit hclear slot hslot =>
    exists_value_of_walk hsplit hclear hslot⟩
  · rw [← List.findSome?_eq_none_iff, hwalk]
    cases (t.evaluate store).outcome <;> simp [failure?]
  · have hfails : (t.evaluate store).outcome = .error e ↔
        t.walk.findSome? (Stop.obstacle? store) = some e := by
      rw [hwalk]
      cases (t.evaluate store).outcome <;> simp [failure?]
    rw [hfails, List.findSome?_eq_some_iff]
    constructor
    · rintro ⟨before, stop, after, hsplit, hstop, hclear⟩
      exact ⟨before, stop, after, hsplit, hclear, hstop⟩
    · rintro ⟨before, stop, after, hsplit, hclear, hstop⟩
      exact ⟨before, stop, after, hsplit, hstop, hclear⟩

/-- A power of a text stands in front of an empty slot. -/
theorem evaluate_first_obstacle_power :
    let slots : Slots Tree 3 := .cons (some (ofValue (.number (.int32 1))))
      (.cons (some (ofValue (.str "s"))) (.cons (some (ofValue (.number (.int64 2)))) .nil))
    let t := division (.zero false) (some (function .power slots)) none
    (t.evaluate .empty).outcome = .error (.nonNumeric Operation.power.identifier
      [.numeric .int32, .str, .numeric .int64]) ∧
    ∀ slot ∈ slots.toList, ∃ child value,
      slot = some child ∧ (child.evaluate .empty).outcome = .ok value := by
  intro slots t
  let before : List Stop := [.leaf (.literal ⟨.number (.int32 1)⟩), .leaf (.literal ⟨.str "s"⟩),
    .leaf (.literal ⟨.number (.int64 2)⟩)]
  obtain ⟨_, hfailure, hinputs⟩ := evaluate_first_obstacle .empty t
  have hclear : ∀ earlier ∈ before, earlier.obstacle? .empty = none := by
    simp [before, Stop.obstacle?, Terminal.obstacle?]
  have hobstacle : (Stop.node .power slots).obstacle? .empty = some (.nonNumeric
      Operation.power.identifier [.numeric .int32, .str, .numeric .int64]) := by
    decide
  exact ⟨(hfailure _).mpr ⟨before, _, _, rfl, hclear, hobstacle⟩, hinputs before _ _ _ rfl hclear⟩

end Tree

end NumericTrees
