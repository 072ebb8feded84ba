import Mathlib.Data.List.Forall2
import NumericTrees.Tree.Evaluation
import NumericTrees.Tree.Typing

/-!
# Visiting the slots of a node

Typing and evaluation visit the slots of a node in the same way, with answers of different types.
Apart from the recorded tags an evaluation is its outcome, so both are one visit that answers or
fails. This file says what such a visit answers and where its failures come from.
-/

namespace NumericTrees

section Lists

variable {α β : Type} {R : α → β → Prop} {l : List α} {r : List β}

lemma forall₂_mem_left (h : List.Forall₂ R l r) {a : α} (ha : a ∈ l) : ∃ b ∈ r, R a b := by
  induction h with
  | nil => cases ha
  | cons hab _ ih =>
    obtain rfl | ha := List.mem_cons.mp ha
    · exact ⟨_, List.mem_cons_self, hab⟩
    · obtain ⟨b, hb, hR⟩ := ih ha
      exact ⟨b, List.mem_cons_of_mem _ hb, hR⟩

lemma forall₂_mem_right (h : List.Forall₂ R l r) {b : β} (hb : b ∈ r) : ∃ a ∈ l, R a b :=
  forall₂_mem_left h.flip hb

end Lists

namespace Trace

variable {α β : Type}

@[simp] lemma outcome_pure (a : α) : (pure a : Trace α).outcome = .ok a := rfl

lemma outcome_bind (t : Trace α) (next : α → Trace β) :
    (t >>= next).outcome = t.outcome.bind fun a => (next a).outcome := by
  change (t.andThen next).outcome = _
  cases h : t.outcome <;> simp [andThen, h, Except.bind]

instance : LawfulMonad Trace := by
  refine LawfulMonad.mk' Trace ?_ ?_ ?_
  · rintro γ ⟨tags, outcome⟩
    cases outcome with
    | error e => rfl
    | ok a =>
      change (⟨tags ++ [], .ok a⟩ : Trace γ) = ⟨tags, .ok a⟩
      rw [List.append_nil]
  · intro γ δ a next
    rfl
  · rintro γ δ η ⟨tags, outcome⟩ next last
    cases outcome with
    | error e => rfl
    | ok a =>
      change (Trace.andThen ⟨tags ++ (next a).tags, (next a).outcome⟩ last) =
        Trace.andThen ⟨tags, .ok a⟩ fun a => (next a).andThen last
      simp only [Trace.andThen]
      cases (next a).outcome with
      | error e => rfl
      | ok b => exact congrArg (Trace.mk · _) (List.append_assoc ..)

end Trace

namespace Slots

variable {α β ε : Type} {n : Nat}

/-- Visits the slots in order for answers or failures. -/
def visit (missing : Nat → ε) (answer : α → Except ε β) (index : Nat) (slots : Slots α n) :
    Except ε (Tuple β n) :=
  slots.traverse (fun index => .error (missing index)) answer index

/-- A translation that respects sequencing translates a visit slot by slot. -/
lemma traverse_hom {m k : Type → Type} [Monad m] [Monad k] (f : {γ : Type} → m γ → k γ)
    (hpure : ∀ {γ : Type} (c : γ), f (pure c) = pure c)
    (hbind : ∀ {γ δ : Type} (x : m γ) (next : γ → m δ),
      f (x >>= next) = f x >>= fun c => f (next c))
    (missing : Nat → m β) (visit : α → m β) (slots : Slots α n) (index : Nat) :
    f (slots.traverse missing visit index) =
      slots.traverse (fun i => f (missing i)) (fun a => f (visit a)) index := by
  induction slots generalizing index with
  | nil => exact hpure _
  | cons slot rest ih => cases slot <;> simp only [traverse, hbind, hpure, ih]

lemma traverse_congr {m : Type → Type} [Monad m] {missing : Nat → m β} {visit visit' : α → m β}
    {slots : Slots α n} {index : Nat} (h : ∀ child ∈ slots.children, visit child = visit' child) :
    slots.traverse missing visit index = slots.traverse missing visit' index := by
  induction slots generalizing index with
  | nil => rfl
  | cons slot rest ih =>
    cases slot with
    | none =>
      rw [children_cons_none] at h
      simp only [traverse, ih h]
    | some child =>
      rw [children_cons_some, List.forall_mem_cons] at h
      simp only [traverse, h.1, ih h.2]

/-- The outcome of evaluating slots is the visit of the slots for the outcomes of the children. -/
lemma outcome_traverse (missing : Nat → EvalError) (evaluate : α → Trace β) (slots : Slots α n)
    (index : Nat) :
    (slots.traverse (fun index => .fail (missing index)) evaluate index).outcome =
      slots.visit missing (fun child => (evaluate child).outcome) index :=
  traverse_hom Trace.outcome Trace.outcome_pure Trace.outcome_bind _ evaluate slots index

section Visit

variable {missing : Nat → ε} {answer : α → Except ε β}

lemma visit_cons_none (index : Nat) (rest : Slots α n) :
    visit missing answer index (.cons none rest) = .error (missing index) := rfl

lemma visit_cons_error {child : α} {e : ε} (index : Nat) (rest : Slots α n)
    (h : answer child = .error e) :
    visit missing answer index (.cons (some child) rest) = .error e := by
  simp only [visit, traverse, h]
  rfl

lemma visit_cons_ok {child : α} {b : β} (index : Nat) (rest : Slots α n)
    (h : answer child = .ok b) :
    visit missing answer index (.cons (some child) rest) =
      (visit missing answer (index + 1) rest).map (Tuple.cons b) := by
  simp only [visit, traverse, h]
  change (visit missing answer (index + 1) rest).bind (fun tail => .ok (Tuple.cons b tail)) =
    (visit missing answer (index + 1) rest).map (Tuple.cons b)
  cases visit missing answer (index + 1) rest <;> rfl

/-- A visit answers exactly when every slot holds a child with an answer. -/
lemma visit_eq_ok_iff {slots : Slots α n} {index : Nat} {results : Tuple β n} :
    slots.visit missing answer index = .ok results ↔
      List.Forall₂ (fun slot b => ∃ child, slot = some child ∧ answer child = .ok b)
        slots.toList results.toList := by
  induction slots generalizing index with
  | nil =>
    cases results
    exact ⟨fun _ => .nil, fun _ => rfl⟩
  | cons slot rest ih =>
    cases results with
    | cons b results =>
      rw [Tuple.toList, Tuple.toList, List.forall₂_cons]
      cases slot with
      | none => simp [visit_cons_none]
      | some child =>
        cases hchild : answer child with
        | error e => simp [visit_cons_error index rest hchild, hchild]
        | ok a =>
          rw [visit_cons_ok index rest hchild, ← @ih (index + 1)]
          cases visit missing answer (index + 1) rest with
          | error e => simp [Except.map]
          | ok tail => simp [Except.map, hchild]

/-- A failing visit fails at an empty slot or with the failure of a child. -/
lemma visit_eq_error {slots : Slots α n} {index : Nat} {e : ε}
    (h : slots.visit missing answer index = .error e) :
    (∃ i, e = missing i) ∨ ∃ child ∈ slots.children, answer child = .error e := by
  induction slots generalizing index with
  | nil => cases h
  | cons slot rest ih =>
    cases slot with
    | none =>
      rw [visit_cons_none] at h
      exact .inl ⟨index, (Except.error.inj h).symm⟩
    | some child =>
      rw [children_cons_some]
      cases hchild : answer child with
      | error e' =>
        rw [visit_cons_error index rest hchild] at h
        cases h
        exact .inr ⟨child, List.mem_cons_self, hchild⟩
      | ok b =>
        rw [visit_cons_ok index rest hchild] at h
        cases hrest : visit missing answer (index + 1) rest with
        | ok tail =>
          rw [hrest] at h
          cases h
        | error e' =>
          rw [hrest] at h
          cases h
          obtain hmissing | ⟨other, hother, hfails⟩ := ih hrest
          · exact .inl hmissing
          · exact .inr ⟨other, List.mem_cons_of_mem _ hother, hfails⟩

end Visit

end Slots

namespace Tree

lemma outcome_ofValue (store : Store) (value : Value) :
    ((ofValue value).evaluate store).outcome = .ok value := by
  rw [ofValue, evaluate_terminal]
  rfl

/-- The outcome of a function node is its operation applied to the outcomes of its children. -/
lemma outcome_evaluate_function (store : Store) (op : Operation) (slots : Slots Tree op.arity) :
    ((function op slots).evaluate store).outcome =
      (Slots.visit (.missingChild op.identifier) (fun child => (child.evaluate store).outcome) 0
        slots).bind op.apply := by
  rw [evaluate_function, Slots.evaluateAll]
  change Trace.outcome (_ >>= _) = _
  rw [Trace.outcome_bind, Slots.outcome_traverse]
  rfl

/-- The type of a function node is the type of its operation for the types of its children. -/
lemma infer_function_eq_visit (op : Operation) (slots : Slots Tree op.arity) :
    (function op slots).infer =
      (Slots.visit (.missingChild op.identifier) infer 0 slots).bind (op.typeOf ·.toList) :=
  infer_function op slots

end Tree

end NumericTrees
