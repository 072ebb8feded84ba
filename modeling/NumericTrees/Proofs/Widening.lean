import Mathlib.Order.MinMax
import NumericTrees.Operation

/-!
# Widening as a maximum

The kinds are linearly ordered and widening is their maximum. A list of types has a widest kind
exactly when it is a nonempty list of numeric types, and then an operation and its typing look at
nothing but the kinds. This file reduces the typing of an operation to the maximum of a list of
kinds, and ties it to what the operation does with values.
-/

namespace NumericTrees

namespace Kind

instance : LinearOrder Kind where
  le_refl k := Nat.le_refl k.rank
  le_trans _ _ _ h₁ h₂ := Nat.le_trans h₁ h₂
  le_antisymm _ _ h₁ h₂ := rank_injective (Nat.le_antisymm h₁ h₂)
  le_total k l := Nat.le_total k.rank l.rank
  toDecidableLE := inferInstance
  toDecidableEq := inferInstance
  max := widen
  max_def _ _ := rfl
  compare k l := compare k.rank l.rank
  compare_eq_compareOfLessAndEq k l := by cases k <;> cases l <;> rfl

lemma le_float64 (k : Kind) : k ≤ float64 := by
  cases k <;> decide

end Kind

namespace ValueType

lemma isNumeric_iff {type : ValueType} : type.isNumeric = true ↔ ∃ k, type = numeric k := by
  cases type <;> simp [isNumeric]

lemma allNumeric_iff {types : List ValueType} :
    allNumeric types = true ↔ ∃ kinds : List Kind, types = kinds.map numeric := by
  induction types with
  | nil => simp [allNumeric]
  | cons type types ih =>
    rw [allNumeric, List.all_cons, Bool.and_eq_true, isNumeric_iff]
    constructor
    · rintro ⟨⟨k, rfl⟩, h⟩
      obtain ⟨kinds, rfl⟩ := ih.mp h
      exact ⟨k :: kinds, rfl⟩
    · rintro ⟨kinds, h⟩
      cases kinds with
      | nil => cases h
      | cons k kinds =>
        obtain ⟨rfl, rfl⟩ := List.cons.inj h
        exact ⟨⟨k, rfl⟩, ih.mpr ⟨kinds, rfl⟩⟩

lemma mapM_kind?_map (kinds : List Kind) : (kinds.map numeric).mapM kind? = some kinds := by
  induction kinds with
  | nil => rfl
  | cons k kinds ih =>
    rw [List.map_cons, List.mapM_cons, ih]
    rfl

lemma mapM_kind?_eq_some {types : List ValueType} {kinds : List Kind}
    (h : types.mapM kind? = some kinds) : types = kinds.map numeric := by
  induction types generalizing kinds with
  | nil => simp_all
  | cons type types ih =>
    simp only [List.mapM_cons, Option.bind_eq_bind, Option.pure_def, Option.bind_eq_some_iff,
      Option.some.injEq] at h
    obtain ⟨k, hk, rest, hrest, rfl⟩ := h
    have htype : type = numeric k := by
      cases type <;> simp_all [kind?]
    rw [htype, ih hrest]
    rfl

lemma widest?_map_numeric (kinds : List Kind) : widest? (kinds.map numeric) = kinds.max? := by
  rw [widest?, mapM_kind?_map]
  rfl

lemma widest?_of_not_allNumeric {types : List ValueType} (h : allNumeric types = false) :
    widest? types = none := by
  by_contra hsome
  obtain ⟨k, hk⟩ := Option.ne_none_iff_exists'.mp hsome
  obtain ⟨kinds, hkinds, _⟩ := Option.bind_eq_some_iff.mp hk
  rw [mapM_kind?_eq_some hkinds, allNumeric_iff.mpr ⟨kinds, rfl⟩] at h
  cases h

end ValueType

section Numbers

variable {n : Nat}

lemma Value.number?_eq_some_iff {value : Value} {a : Number} :
    value.number? = some a ↔ value = .number a := by
  cases value <;> simp [number?]

lemma Tuple.numbers?_eq_some_iff {values : Tuple Value n} {numbers : Tuple Number n} :
    values.numbers? = some numbers ↔ values = numbers.map Value.number := by
  induction values with
  | nil =>
    cases numbers
    simp [Tuple.numbers?, Tuple.map]
  | cons value rest ih =>
    cases numbers with
    | cons a numbers =>
      simp [Tuple.numbers?, Tuple.map, Option.bind_eq_some_iff, Value.number?_eq_some_iff, ih]

lemma Tuple.exists_numbers {values : Tuple Value n}
    (h : ValueType.allNumeric (values.toList.map Value.type) = true) :
    ∃ numbers : Tuple Number n, values = numbers.map Value.number := by
  induction values with
  | nil => exact ⟨.nil, rfl⟩
  | cons value rest ih =>
    simp only [Tuple.toList, List.map_cons, ValueType.allNumeric, List.all_cons,
      Bool.and_eq_true] at h
    obtain ⟨numbers, rfl⟩ := ih h.2
    cases value with
    | number a => exact ⟨.cons a numbers, rfl⟩
    | bool b => exact absurd h.1 (by simp [Value.type, ValueType.isNumeric])
    | str s => exact absurd h.1 (by simp [Value.type, ValueType.isNumeric])

lemma Tuple.types_of_numbers (numbers : Tuple Number n) :
    (numbers.map Value.number).toList.map Value.type =
      (numbers.toList.map Number.kind).map ValueType.numeric := by
  rw [Tuple.toList_map, List.map_map, List.map_map]
  rfl

lemma expectNumeric_number (node : String) (numbers : Tuple Number n) :
    expectNumeric node (numbers.map Value.number) = .ok numbers := by
  rw [expectNumeric, Tuple.numbers?_eq_some_iff.mpr rfl]

/-- The numbers of a tuple are refused exactly when some type is not numeric. -/
lemma expectNumeric_of_not_allNumeric {node : String} {values : Tuple Value n}
    (h : ValueType.allNumeric (values.toList.map Value.type) = false) :
    expectNumeric node values = .error (.nonNumeric node (values.toList.map Value.type)) := by
  have hnone : values.numbers? = none := by
    by_contra hsome
    obtain ⟨numbers, hnumbers⟩ := Option.ne_none_iff_exists'.mp hsome
    rw [Tuple.numbers?_eq_some_iff.mp hnumbers, Tuple.types_of_numbers,
      ValueType.allNumeric_iff.mpr ⟨_, rfl⟩] at h
    cases h
  rw [expectNumeric, hnone]

end Numbers

namespace Operation

/-- The kind of the result for operands of the given kinds. -/
def resultKind? : Operation → List Kind → Option Kind
  | division _, kinds => kinds.max?
  | power, _ => some .float64

lemma exists_resultKind (op : Operation) {kinds : List Kind} (h : kinds.length = op.arity) :
    ∃ k, op.resultKind? kinds = some k := by
  cases op with
  | division protection =>
    have hne : kinds ≠ [] := by
      rintro rfl
      cases h
    obtain ⟨k, hk⟩ := Option.ne_none_iff_exists'.mp (mt List.max?_eq_none_iff.mp hne)
    exact ⟨k, hk⟩
  | power => exact ⟨.float64, rfl⟩

lemma le_of_resultKind? {op : Operation} {kinds : List Kind} {k l : Kind}
    (h : op.resultKind? kinds = some k) (hl : l ∈ kinds) : l ≤ k := by
  cases op with
  | division protection => exact (List.max?_eq_some_iff.mp h).2 l hl
  | power =>
    cases h
    exact l.le_float64

lemma resultKind?_perm (op : Operation) {kinds kinds' : List Kind} (h : kinds.Perm kinds') :
    op.resultKind? kinds = op.resultKind? kinds' := by
  cases op with
  | division protection =>
    apply Option.ext
    intro k
    rw [resultKind?, resultKind?, List.max?_eq_some_iff, List.max?_eq_some_iff]
    simp only [h.mem_iff]
  | power => rfl

lemma infer_map_numeric (op : Operation) {kinds : List Kind} (h : kinds.length = op.arity) :
    op.infer (kinds.map .numeric) = (op.resultKind? kinds).map .numeric := by
  have hlen : (kinds.map ValueType.numeric).length = op.arity := by
    rw [List.length_map, h]
  cases op with
  | division protection =>
    simp only [infer, if_pos hlen, ValueType.widest?_map_numeric, resultKind?]
  | power =>
    have hnumeric : ValueType.allNumeric (kinds.map .numeric) = true :=
      ValueType.allNumeric_iff.mpr ⟨kinds, rfl⟩
    simp only [infer, if_pos hlen, if_pos hnumeric, resultKind?, Option.map_some]

lemma infer_of_not_allNumeric (op : Operation) {types : List ValueType}
    (h : ValueType.allNumeric types = false) : op.infer types = none := by
  cases op with
  | division protection => simp [infer, ValueType.widest?_of_not_allNumeric h]
  | power => simp [infer, h]

/-- An operation takes as many numeric operands as its arity says, and answers a number. -/
lemma infer_eq_some_iff {op : Operation} {types : List ValueType} {type : ValueType}
    (hlen : types.length = op.arity) :
    op.infer types = some type ↔
      ∃ kinds : List Kind, types = kinds.map .numeric ∧
        ∃ k, op.resultKind? kinds = some k ∧ type = .numeric k := by
  constructor
  · intro h
    by_cases hnumeric : ValueType.allNumeric types = true
    · obtain ⟨kinds, rfl⟩ := ValueType.allNumeric_iff.mp hnumeric
      rw [infer_map_numeric op (by rw [← hlen, List.length_map]), Option.map_eq_some_iff] at h
      obtain ⟨k, hk, rfl⟩ := h
      exact ⟨kinds, rfl, k, hk, rfl⟩
    · rw [infer_of_not_allNumeric op (by simpa using hnumeric)] at h
      cases h
  · rintro ⟨kinds, rfl, k, hk, rfl⟩
    rw [infer_map_numeric op (by rw [← hlen, List.length_map]), hk]
    rfl

/-- The kind of a computed number depends on the kinds of the operands alone. -/
lemma resultKind?_compute (op : Operation) (operands : Tuple Number op.arity) :
    op.resultKind? (operands.toList.map Number.kind) = some (op.compute operands).kind := by
  match op, operands with
  | division protection, .cons dividend (.cons divisor .nil) =>
    rw [compute, Number.kind_divide]
    rfl
  | power, .cons coefficient (.cons term (.cons exponent .nil)) => rfl

lemma apply_number (op : Operation) (operands : Tuple Number op.arity) :
    op.apply (operands.map Value.number) = .ok (.number (op.compute operands)) := by
  rw [apply, expectNumeric_number]
  rfl

lemma apply_of_not_allNumeric (op : Operation) {values : Tuple Value op.arity}
    (h : ValueType.allNumeric (values.toList.map Value.type) = false) :
    op.apply values = .error (.nonNumeric op.identifier (values.toList.map Value.type)) := by
  rw [apply, expectNumeric_of_not_allNumeric h]
  rfl

/-- Typing an operation foretells what becomes of values of these types: a value of the inferred
type, or the refusal of all of them. -/
theorem apply_spec (op : Operation) (values : Tuple Value op.arity) :
    (∃ value, op.apply values = .ok value ∧
      op.infer (values.toList.map Value.type) = some value.type) ∨
    (op.apply values = .error (.nonNumeric op.identifier (values.toList.map Value.type)) ∧
      op.infer (values.toList.map Value.type) = none) := by
  cases hnumeric : ValueType.allNumeric (values.toList.map Value.type) with
  | true =>
    obtain ⟨operands, rfl⟩ := Tuple.exists_numbers hnumeric
    refine .inl ⟨.number (op.compute operands), op.apply_number operands, ?_⟩
    rw [Tuple.types_of_numbers, infer_map_numeric op (by simp), resultKind?_compute]
    rfl
  | false => exact .inr ⟨op.apply_of_not_allNumeric hnumeric, op.infer_of_not_allNumeric hnumeric⟩

end Operation

end NumericTrees
