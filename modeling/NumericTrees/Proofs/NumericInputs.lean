import NumericTrees.Proofs.Widening

/-!
# Numeric inputs

Before an operation is carried out its inputs are checked, by their values where there are any and
by their types alone before that. The two checks agree on any number of inputs: values are numbers
exactly when all of their types are numeric. The widest kind of a list of types is the greatest
element of the list, so neither the order of the inputs nor repetitions among them matter, and the
widest kind of two lists in a row is the wider one of theirs.
-/

namespace NumericTrees

namespace ValueType

variable {types types' : List ValueType} {kind : Kind}

/-! ### One pass over the types -/

/-- One step of a pass that keeps the widest kind so far and fails at a type that is not numeric. -/
def widenSoFar (soFar : Option Kind) (type : ValueType) : Option (Option Kind) := do
  let kind ← type.kind?
  return some <| match soFar with
    | some widest => widest.widen kind
    | none => kind

lemma foldlM_widenSoFar (widest : Kind) (kinds : List Kind) :
    (kinds.map numeric).foldlM widenSoFar (some widest) = some (some (kinds.foldl max widest)) := by
  induction kinds generalizing widest with
  | nil => rfl
  | cons kind kinds ih => exact ih (widest.widen kind)

lemma foldlM_widenSoFar_of_not_allNumeric (soFar : Option Kind)
    (h : allNumeric types = false) : types.foldlM widenSoFar soFar = none := by
  induction types generalizing soFar with
  | nil => cases h
  | cons type types ih =>
    cases type with
    | numeric kind => exact ih _ h
    | bool => rfl
    | str => rfl

/-- A pass that fails and a pass over nothing end alike: there is no widest kind. -/
lemma widest?_eq_foldlM (types : List ValueType) :
    widest? types = (types.foldlM widenSoFar none).join := by
  cases h : allNumeric types with
  | false =>
    rw [widest?_of_not_allNumeric h, foldlM_widenSoFar_of_not_allNumeric none h]
    rfl
  | true =>
    obtain ⟨kinds, rfl⟩ := allNumeric_iff.mp h
    rw [widest?_map_numeric]
    cases kinds with
    | nil => rfl
    | cons kind kinds =>
      rw [List.max?_cons']
      exact (congrArg Option.join (foldlM_widenSoFar kind kinds)).symm

/-! ### The greatest element -/

/-- The widest kind of a list is its greatest element, where all elements are kinds. -/
lemma widest?_eq_some_iff :
    widest? types = some kind ↔
      allNumeric types = true ∧ numeric kind ∈ types ∧ ∀ l, numeric l ∈ types → l ≤ kind := by
  cases h : allNumeric types with
  | false => simp [widest?_of_not_allNumeric h]
  | true =>
    obtain ⟨kinds, rfl⟩ := allNumeric_iff.mp h
    rw [widest?_map_numeric, List.max?_eq_some_iff]
    simp

lemma widest?_isSome_iff :
    (widest? types).isSome = true ↔ types ≠ [] ∧ allNumeric types = true := by
  cases h : allNumeric types with
  | false => simp [widest?_of_not_allNumeric h]
  | true =>
    obtain ⟨kinds, rfl⟩ := allNumeric_iff.mp h
    rw [widest?_map_numeric, Option.isSome_iff_ne_none, Ne, List.max?_eq_none_iff]
    simp

lemma allNumeric_congr (h : ∀ type, type ∈ types ↔ type ∈ types') :
    allNumeric types = allNumeric types' := by
  rw [Bool.eq_iff_iff, allNumeric, allNumeric, List.all_eq_true, List.all_eq_true]
  simp only [h]

lemma widest?_congr (h : ∀ type, type ∈ types ↔ type ∈ types') :
    widest? types = widest? types' := by
  apply Option.ext
  intro kind
  rw [widest?_eq_some_iff, widest?_eq_some_iff, allNumeric_congr h]
  simp only [h]

lemma widest?_append {k l : Kind} (hk : widest? types = some k) (hl : widest? types' = some l) :
    widest? (types ++ types') = some (k.widen l) := by
  obtain ⟨hnumeric, hmem, hle⟩ := widest?_eq_some_iff.mp hk
  obtain ⟨hnumeric', hmem', hle'⟩ := widest?_eq_some_iff.mp hl
  refine widest?_eq_some_iff.mpr ⟨?_, ?_, ?_⟩
  · rw [allNumeric, List.all_append, Bool.and_eq_true]
    exact ⟨hnumeric, hnumeric'⟩
  · have hchoice : k.widen l = k ∨ k.widen l = l := max_choice k l
    rw [List.mem_append]
    rcases hchoice with h | h
    · exact .inl (by rwa [h])
    · exact .inr (by rwa [h])
  · intro m hm
    rcases List.mem_append.mp hm with h | h
    · exact le_max_of_le_left (hle m h)
    · exact le_max_of_le_right (hle' m h)

end ValueType

/-! ### Values and their types -/

variable {n : Nat}

lemma expectNumeric_eq_ok_iff {node : String} {values : Tuple Value n}
    {numbers : Tuple Number n} :
    expectNumeric node values = .ok numbers ↔ values = numbers.map Value.number := by
  rw [← Tuple.numbers?_eq_some_iff, expectNumeric]
  cases values.numbers? <;> simp

lemma exists_expectNumeric_iff {node : String} {values : Tuple Value n} :
    (∃ numbers, expectNumeric node values = .ok numbers) ↔
      ValueType.allNumeric (values.toList.map Value.type) = true := by
  constructor
  · rintro ⟨numbers, h⟩
    rw [expectNumeric_eq_ok_iff.mp h, Tuple.types_of_numbers]
    exact ValueType.allNumeric_iff.mpr ⟨_, rfl⟩
  · intro h
    obtain ⟨numbers, rfl⟩ := Tuple.exists_numbers h
    exact ⟨numbers, expectNumeric_number node numbers⟩

/-- The checks of inputs agree, whatever number of inputs there are. Values pass as numbers exactly
when all of their types are numeric, and then as they stand and in their order; otherwise they are
refused with the types of all of them. A list of types has a widest kind exactly when it is not
empty and all of them are numeric. That kind is the greatest element of the list, and one pass that
keeps the widest kind so far finds it. It is the same for lists of the same elements, in whatever
order and however often they occur, and the widest kind of two lists in a row is the wider one of
theirs. -/
theorem numeric_checks_agree :
    (∀ (node : String) {n : Nat} (values : Tuple Value n),
      let types := values.toList.map Value.type
      ((∃ numbers, expectNumeric node values = .ok numbers) ↔
        ValueType.allNumeric types = true) ∧
      (∀ numbers, expectNumeric node values = .ok numbers →
        values.toList = numbers.toList.map Value.number) ∧
      (ValueType.allNumeric types = false →
        expectNumeric node values = .error (.nonNumeric node types))) ∧
    (∀ types : List ValueType,
      ((ValueType.widest? types).isSome = true ↔
        types ≠ [] ∧ ValueType.allNumeric types = true) ∧
      (∀ kind, ValueType.widest? types = some kind →
        .numeric kind ∈ types ∧ ∀ other, .numeric other ∈ types → other ≤ kind) ∧
      ValueType.widest? types = (types.foldlM ValueType.widenSoFar none).join) ∧
    (∀ types types' : List ValueType, (∀ type, type ∈ types ↔ type ∈ types') →
      ValueType.widest? types = ValueType.widest? types') ∧
    ∀ types types' : List ValueType, types ≠ [] → ValueType.allNumeric types = true →
      types' ≠ [] → ValueType.allNumeric types' = true →
      ∃ k l, ValueType.widest? types = some k ∧ ValueType.widest? types' = some l ∧
        ValueType.widest? (types ++ types') = some (k.widen l) := by
  refine ⟨fun node n values => ⟨exists_expectNumeric_iff, fun numbers h => ?_,
    expectNumeric_of_not_allNumeric⟩, fun types => ⟨ValueType.widest?_isSome_iff, fun kind h => ?_,
    ValueType.widest?_eq_foldlM types⟩, fun types types' => ValueType.widest?_congr, ?_⟩
  · rw [expectNumeric_eq_ok_iff.mp h, Tuple.toList_map]
  · exact (ValueType.widest?_eq_some_iff.mp h).2
  · intro types types' hne hnumeric hne' hnumeric'
    obtain ⟨k, hk⟩ := Option.isSome_iff_exists.mp (ValueType.widest?_isSome_iff.mpr ⟨hne, hnumeric⟩)
    obtain ⟨l, hl⟩ :=
      Option.isSome_iff_exists.mp (ValueType.widest?_isSome_iff.mpr ⟨hne', hnumeric'⟩)
    exact ⟨k, l, hk, hl, ValueType.widest?_append hk hl⟩

/-- A text between two numbers is refused together with them. The kinds of integers and of numbers
of 32 bits meet in the latter, also when they are listed again in another order. -/
theorem numeric_checks_agree_mixed :
    let values : Tuple Value 3 :=
      .cons (.number (.int64 7)) (.cons (.str "two") (.cons (.number (.int32 3)) .nil))
    let integers : List ValueType := [.numeric .int32, .numeric .int64]
    let singles : List ValueType := [.numeric .float32]
    let repeated : List ValueType := [.numeric .int64, .numeric .int32, .numeric .int64]
    ValueType.allNumeric (values.toList.map Value.type) = false ∧
    expectNumeric "N" values =
      .error (.nonNumeric "N" [.numeric .int64, .str, .numeric .int32]) ∧
    (∀ type, type ∈ integers ↔ type ∈ repeated) ∧
    ValueType.widest? integers = ValueType.widest? repeated ∧
    integers ≠ [] ∧ ValueType.allNumeric integers = true ∧
    singles ≠ [] ∧ ValueType.allNumeric singles = true ∧
    ValueType.widest? repeated = some .int64 ∧ .numeric .int64 ∈ repeated ∧
    ∃ k l, ValueType.widest? integers = some k ∧ ValueType.widest? singles = some l ∧
      ValueType.widest? (integers ++ singles) = some (k.widen l) := by
  intro values integers singles repeated
  obtain ⟨hvalues, htypes, hsame, happend⟩ := numeric_checks_agree
  have hother : ValueType.allNumeric (values.toList.map Value.type) = false := by decide
  have hmem (type : ValueType) : type ∈ integers ↔ type ∈ repeated := by
    simp only [integers, repeated, List.mem_cons, List.not_mem_nil, or_false]
    grind
  have hwidest : ValueType.widest? repeated = some .int64 := by decide
  exact ⟨hother, (hvalues "N" values).2.2 hother, hmem, hsame _ _ hmem, by decide, by decide,
    by decide, by decide, hwidest, ((htypes repeated).2.1 _ hwidest).1,
    happend _ _ (by decide) (by decide) (by decide) (by decide)⟩

end NumericTrees
