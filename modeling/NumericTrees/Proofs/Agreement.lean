import NumericTrees.Proofs.Bindings
import NumericTrees.Proofs.Contents
import NumericTrees.Proofs.Traversal
import NumericTrees.Proofs.Widening

/-!
# Agreement of typing and evaluation

Typing a tree and evaluating it visit the same nodes in the same order, one for types and one for
values. They agree where the values have the types and where both fail for the same reason at the
same node. The only other outcome of an evaluation is that it comes to a variable without a value.
-/

namespace NumericTrees

/-- The same failure of typing and of evaluation. -/
inductive SameFailure : TypeError → EvalError → Prop
  | missingChild (node : String) (index : Nat) :
    SameFailure (.missingChild node index) (.missingChild node index)
  | illTyped (node : String) (inputs : List ValueType) :
    SameFailure (.illTyped node inputs) (.nonNumeric node inputs)
  | depthExceeded (depth maxDepth : Nat) :
    SameFailure (.depthExceeded depth maxDepth) (.depthExceeded depth maxDepth)

/-- Typing and evaluation end alike: with answers that belong together, or with the same failure. -/
inductive Agree {α β : Type} (Belongs : α → β → Prop) :
    Except TypeError α → Except EvalError β → Prop
  | ok {a : α} {b : β} (h : Belongs a b) : Agree Belongs (.ok a) (.ok b)
  | error {e : TypeError} {e' : EvalError} (h : SameFailure e e') :
    Agree Belongs (.error e) (.error e')

/-- The value has the type. -/
def HasType (type : ValueType) (value : Value) : Prop := value.type = type

/-- The values have the types, one by one. -/
def HaveTypes {n : Nat} (types : Tuple ValueType n) (values : Tuple Value n) : Prop :=
  types.toList = values.toList.map Value.type

/-- The evaluation came to one of the variables and found it without a value. -/
def Unbound {α : Type} (store : Store) (vars : List Variable)
    (outcome : Except EvalError α) : Prop :=
  ∃ v ∈ vars, store.value? v = none ∧ outcome = .error (.unboundVariable v.name)

lemma Unbound.mono {α : Type} {store : Store} {vars vars' : List Variable}
    {outcome : Except EvalError α} (h : Unbound store vars outcome) (hsub : vars ⊆ vars') :
    Unbound store vars' outcome := by
  obtain ⟨v, hv, hvalue, houtcome⟩ := h
  exact ⟨v, hsub hv, hvalue, houtcome⟩

lemma HaveTypes.cons {n : Nat} {type : ValueType} {value : Value} {types : Tuple ValueType n}
    {values : Tuple Value n} (htype : HasType type value) (htypes : HaveTypes types values) :
    HaveTypes (.cons type types) (.cons value values) := by
  rw [HaveTypes, Tuple.toList, Tuple.toList, List.map_cons, htype, htypes]

lemma Agree.cons {n : Nat} {type : ValueType} {value : Value}
    {static : Except TypeError (Tuple ValueType n)} {dynamic : Except EvalError (Tuple Value n)}
    (htype : HasType type value) (h : Agree HaveTypes static dynamic) :
    Agree HaveTypes (static.map (Tuple.cons type)) (dynamic.map (Tuple.cons value)) := by
  cases h with
  | ok htypes => exact .ok (HaveTypes.cons htype htypes)
  | error hsame => exact .error hsame

section Visits

variable {α : Type} {n : Nat} {infer : α → Except TypeError ValueType}
  {evaluate : α → Except EvalError Value} {store : Store} {vars : List Variable}

/-- Two visits of the same slots end alike when they do at every child. -/
lemma Slots.visit_agree (node : String) (slots : Slots α n) (index : Nat)
    (h : ∀ child ∈ slots.children, Agree HasType (infer child) (evaluate child) ∨
      Unbound store vars (evaluate child)) :
    Agree HaveTypes (slots.visit (.missingChild node) infer index)
        (slots.visit (.missingChild node) evaluate index) ∨
      Unbound store vars (slots.visit (.missingChild node) evaluate index) := by
  induction slots generalizing index with
  | nil => exact .inl (.ok rfl)
  | cons slot rest ih =>
    cases slot with
    | none =>
      rw [visit_cons_none, visit_cons_none]
      exact .inl (.error (.missingChild node index))
    | some child =>
      rw [children_cons_some, List.forall_mem_cons] at h
      obtain ⟨hagree | ⟨v, hv, hvalue, hfails⟩, hrest⟩ := h
      · generalize hinfer : infer child = static at hagree
        generalize hevaluate : evaluate child = dynamic at hagree
        cases hagree with
        | ok htype =>
          rw [visit_cons_ok index rest hinfer, visit_cons_ok index rest hevaluate]
          obtain hagree | ⟨v, hv, hvalue, hfails⟩ := ih (index + 1) hrest
          · exact .inl (hagree.cons htype)
          · rw [hfails]
            exact .inr ⟨v, hv, hvalue, rfl⟩
        | error hsame =>
          rw [visit_cons_error index rest hinfer, visit_cons_error index rest hevaluate]
          exact .inl (.error hsame)
      · rw [visit_cons_error index rest hfails]
        exact .inr ⟨v, hv, hvalue, rfl⟩

end Visits

lemma Terminal.agree {t : Terminal} {store : Store} (hhost : t.isHost = false)
    (htyped : ∀ v, t = .var v → ∀ value, store.value? v = some value → value.type = v.type) :
    Agree HasType t.check (t.evaluate store).outcome ∨
      Unbound store t.var?.toList (t.evaluate store).outcome := by
  cases t with
  | literal l => exact .inl (.ok rfl)
  | var v =>
    rw [Terminal.evaluate]
    cases hvalue : store.value? v with
    | none => exact .inr ⟨v, by simp [var?], hvalue, rfl⟩
    | some value => exact .inl (.ok (htyped v rfl value hvalue))
  | host h => cases hhost

namespace Operation

lemma typeOf_agree_apply (op : Operation) {types : Tuple ValueType op.arity}
    {values : Tuple Value op.arity} (h : HaveTypes types values) :
    Agree HasType (op.typeOf types.toList) (op.apply values) := by
  rw [HaveTypes] at h
  rw [typeOf, h]
  obtain ⟨value, hvalue, htype⟩ | ⟨hrefused, htype⟩ := op.apply_spec values
  · rw [hvalue, htype]
    exact .ok rfl
  · rw [hrefused, htype]
    exact .error (.illTyped _ _)

end Operation

namespace Tree

/-- Without a limit, typing and evaluation of a tree agree, or the evaluation comes to a variable
without a value. -/
theorem infer_agree_evaluate {t : Tree} {store : Store} (hhost : t.HostFree)
    (htyped : ∀ v ∈ t.vars, ∀ value, store.value? v = some value → value.type = v.type) :
    Agree HasType t.infer (t.evaluate store).outcome ∨
      Unbound store t.vars (t.evaluate store).outcome := by
  induction t using Tree.induction with
  | terminal x =>
    rw [infer_terminal, evaluate_terminal]
    have hvars : (terminal x).vars = x.var?.toList := by
      rw [vars, terminals_terminal]
      cases x <;> rfl
    rw [hvars]
    apply Terminal.agree (hhost x (by simp))
    rintro v rfl
    exact htyped v (mem_vars_iff.mpr (by simp))
  | function op slots ih =>
    have hchildren : ∀ child ∈ Slots.children slots,
        Agree HasType child.infer (child.evaluate store).outcome ∨
          Unbound store (function op slots).vars (child.evaluate store).outcome := by
      intro child hchild
      have hsub : child.vars ⊆ (function op slots).vars :=
        fun v hv => mem_vars_function.mpr ⟨child, hchild, hv⟩
      exact (ih child hchild (hhost.child hchild) fun v hv => htyped v (hsub hv)).imp id
        fun hunbound => hunbound.mono hsub
    rw [infer_function_eq_visit, outcome_evaluate_function]
    -- Both visits of the slots have ended alike; only where they answered is the operation asked.
    obtain hagree | ⟨v, hv, hvalue, hfails⟩ := Slots.visit_agree op.identifier slots 0 hchildren
    · generalize Slots.visit (.missingChild op.identifier) infer 0 slots = static at hagree
      generalize Slots.visit (.missingChild op.identifier)
        (fun child => (child.evaluate store).outcome) 0 slots = dynamic at hagree
      cases hagree with
      | ok htypes => exact .inl (op.typeOf_agree_apply htypes)
      | error hsame => exact .inl (.error hsame)
    · rw [hfails]
      exact .inr ⟨v, hv, hvalue, rfl⟩

lemma inferWithin_agree_evaluateWithin {t : Tree} {store : Store} (limits : Limits)
    (hhost : t.HostFree)
    (htyped : ∀ v ∈ t.vars, ∀ value, store.value? v = some value → value.type = v.type) :
    Agree HasType (t.inferWithin limits) (t.evaluateWithin limits store).outcome ∨
      Unbound store t.vars (t.evaluateWithin limits store).outcome := by
  rw [inferWithin_eq, evaluateWithin_eq]
  by_cases h : t.depth ≤ limits.maxDepth
  · rw [if_pos h, if_pos h]
    exact infer_agree_evaluate hhost htyped
  · rw [if_neg h, if_neg h]
    exact .inl (.error (.depthExceeded _ _))

/-- Whatever was done with the variables of a tree, typing it foretells its evaluation under every
limit: the same verdict, a value of the inferred type, or the same failure at the same node. Only a
variable without a value can come in between. -/
theorem inferWithin_foretells_evaluateWithin (actions : List Action) (limits : Limits) (t : Tree)
    (hhost : t.HostFree) (hdeclared : ∀ v ∈ t.vars, v ∈ (Bindings.run actions).vars) :
    let store := (Bindings.run actions).store
    let static := t.inferWithin limits
    let dynamic := (t.evaluateWithin limits store).outcome
    ((∀ v ∈ t.vars, (store.value? v).isSome) → Agree HasType static dynamic) ∧
    (Agree HasType static dynamic ∨ Unbound store t.vars dynamic) ∧
    ∀ type, static = .ok type →
      (∃ value, dynamic = .ok value ∧ value.type = type) ∨ Unbound store t.vars dynamic := by
  intro store static dynamic
  have htyped : ∀ v ∈ t.vars, ∀ value, store.value? v = some value → value.type = v.type :=
    fun v hv => (Bindings.wellTyped_run actions).typed v (hdeclared v hv)
  have hagree : Agree HasType static dynamic ∨ Unbound store t.vars dynamic :=
    inferWithin_agree_evaluateWithin limits hhost htyped
  refine ⟨?_, hagree, ?_⟩
  · intro hbound
    obtain hagree | ⟨v, hv, hvalue, _⟩ := hagree
    · exact hagree
    · have hsome := hbound v hv
      rw [hvalue] at hsome
      cases hsome
  · intro type htype
    rw [htype] at hagree
    obtain hagree | hunbound := hagree
    · generalize dynamic = outcome at hagree
      cases hagree with
      | ok h => exact .inl ⟨_, rfl, h⟩
    · exact .inr hunbound

/-- A variable that was assigned a value of a wrong type and then a zero stands twice in a tree. -/
theorem inferWithin_foretells_zero_divisor :
    let x : Variable := ⟨"x", .numeric .int32, 0⟩
    let actions := [.declare "x" (.numeric .int32), .assign x (.bool true),
      .assign x (.number (.int32 0))]
    let quotient :=
      division (.zero false) (some (ofValue (.number (.int64 9)))) (some (ofVariable x))
    let t := power (some quotient) (some (ofVariable x)) (some (ofValue (.str "s")))
    t.HostFree ∧ (∀ v ∈ t.vars, v ∈ (Bindings.run actions).vars) ∧
    (∀ v ∈ t.vars, ((Bindings.run actions).store.value? v).isSome) ∧
    Agree HasType (t.inferWithin ⟨3⟩)
      (t.evaluateWithin ⟨3⟩ (Bindings.run actions).store).outcome := by
  intro x actions quotient t
  have hhost : t.HostFree := by decide
  have hdeclared : ∀ v ∈ t.vars, v ∈ (Bindings.run actions).vars := by decide
  have hbound : ∀ v ∈ t.vars, ((Bindings.run actions).store.value? v).isSome := by decide
  exact ⟨hhost, hdeclared, hbound,
    (inferWithin_foretells_evaluateWithin actions ⟨3⟩ t hhost hdeclared).1 hbound⟩

end Tree

end NumericTrees
