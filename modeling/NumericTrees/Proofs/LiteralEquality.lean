import NumericTrees.Proofs.Interchange
import NumericTrees.Proofs.PrintedValues

/-!
# Equality of literals

Literals are compared by value and by text. As values the two zeros of a floating-point kind are
equal and a NaN equals nothing, not even itself; the texts tell the zeros apart. Between them the
two comparisons leave the identity of contents, except that a NaN is still not equal to itself.
-/

namespace NumericTrees

namespace Binary

variable {f : Format} {x y : Binary f}

lemma key_eq_iff : x.key = y.key ↔ x = y ∨ x.isZero = true ∧ y.isZero = true := by
  obtain ⟨negative, code⟩ := x
  obtain ⟨negative', code'⟩ := y
  simp only [key, isZero, Binary.mk.injEq, beq_iff_eq, Fin.ext_iff]
  cases negative <;> cases negative' <;> simp <;> omega

lemma isNaN_zero (negative : Bool) : (zero negative : Binary f).isNaN = false :=
  decide_eq_false (Nat.not_lt_zero _)

/-- In arithmetic a number equals itself unless it is a NaN, and a zero equals the other one. -/
lemma equals_iff : x.equals y = true ↔
    (x = y ∧ x.isNaN = false) ∨ ∃ negative, x = zero negative ∧ y = zero !negative := by
  rw [equals, Bool.and_eq_true, Bool.and_eq_true, Bool.not_eq_true', Bool.not_eq_true', beq_iff_eq,
    key_eq_iff]
  constructor
  · rintro ⟨⟨hnan, -⟩, rfl | ⟨hx, hy⟩⟩
    · exact .inl ⟨rfl, hnan⟩
    · rw [eq_zero_of_isZero hx, eq_zero_of_isZero hy]
      by_cases hsign : y.negative = x.negative
      · rw [hsign]
        exact .inl ⟨rfl, isNaN_zero _⟩
      · rw [Bool.eq_not_of_ne hsign]
        exact .inr ⟨x.negative, rfl, rfl⟩
  · rintro (⟨rfl, hnan⟩ | ⟨negative, rfl, rfl⟩)
    · exact ⟨⟨hnan, hnan⟩, .inl rfl⟩
    · exact ⟨⟨isNaN_zero _, isNaN_zero _⟩, .inr ⟨rfl, rfl⟩⟩

end Binary

namespace Value

variable {v w : Value}

/-- The values are the two zeros of one floating-point kind. -/
inductive OppositeZeros : Value → Value → Prop
  | float32 (negative : Bool) :
    OppositeZeros (number (.float32 (.zero negative))) (number (.float32 (.zero !negative)))
  | float64 (negative : Bool) :
    OppositeZeros (number (.float64 (.zero negative))) (number (.float64 (.zero !negative)))

lemma equals_self (h : v.isNaN = false) : v.equals v = true := by
  match v, h with
  | number (.int32 n), _ => exact beq_self_eq_true n
  | number (.int64 n), _ => exact beq_self_eq_true n
  | number (.float32 x), h => exact Binary.equals_iff.mpr (.inl ⟨rfl, h⟩)
  | number (.float64 x), h => exact Binary.equals_iff.mpr (.inl ⟨rfl, h⟩)
  | bool b, _ => exact beq_self_eq_true b
  | str s, _ => exact beq_self_eq_true s

lemma equals_iff : v.equals w = true ↔ (v = w ∧ v.isNaN = false) ∨ OppositeZeros v w := by
  constructor
  · intro h
    match v, w, h with
    | number (.int32 m), number (.int32 n), h =>
      rw [eq_of_beq (a := m) (b := n) h]
      exact .inl ⟨rfl, rfl⟩
    | number (.int64 m), number (.int64 n), h =>
      rw [eq_of_beq (a := m) (b := n) h]
      exact .inl ⟨rfl, rfl⟩
    | number (.float32 x), number (.float32 y), h =>
      obtain ⟨rfl, hnan⟩ | ⟨negative, rfl, rfl⟩ := Binary.equals_iff.mp h
      · exact .inl ⟨rfl, hnan⟩
      · exact .inr (.float32 negative)
    | number (.float64 x), number (.float64 y), h =>
      obtain ⟨rfl, hnan⟩ | ⟨negative, rfl, rfl⟩ := Binary.equals_iff.mp h
      · exact .inl ⟨rfl, hnan⟩
      · exact .inr (.float64 negative)
    | bool a, bool b, h =>
      rw [eq_of_beq (a := a) (b := b) h]
      exact .inl ⟨rfl, rfl⟩
    | str s, str t, h =>
      rw [eq_of_beq (a := s) (b := t) h]
      exact .inl ⟨rfl, rfl⟩
  · rintro (⟨rfl, hnan⟩ | hzeros)
    · exact equals_self hnan
    · cases hzeros with
      | float32 negative | float64 negative =>
        exact Binary.equals_iff.mpr (.inr ⟨negative, rfl, rfl⟩)

/-- The texts of the zeros differ in the sign. -/
lemma OppositeZeros.text_ne (h : OppositeZeros v w) : v.text ≠ w.text := by
  cases h with
  | float32 negative | float64 negative => cases negative <;> decide +kernel

end Value

namespace Literal

variable {v w : Value} {l m : Literal}

/-- Equal texts add to equal values that the values are the same. -/
lemma equals_iff : l.equals m = true ↔ l = m ∧ l.value.isNaN = false := by
  obtain ⟨v⟩ := l
  obtain ⟨w⟩ := m
  rw [equals, Bool.and_eq_true, beq_iff_eq, Value.equals_iff, Literal.mk.injEq]
  constructor
  · rintro ⟨hsame | hzeros, htext⟩
    · exact hsame
    · exact absurd htext hzeros.text_ne
  · rintro ⟨rfl, hnan⟩
    exact ⟨.inl ⟨rfl, hnan⟩, rfl⟩

/-- Only the zeros are equal as values and not as literals. -/
lemma equals_differs_iff : v.equals w = true ∧ (mk v).equals ⟨w⟩ = false ↔ v.OppositeZeros w := by
  constructor
  · rintro ⟨hvalues, hliterals⟩
    obtain hsame | hzeros := Value.equals_iff.mp hvalues
    · obtain ⟨rfl, hnan⟩ := hsame
      rw [equals_iff.mpr ⟨rfl, hnan⟩] at hliterals
      cases hliterals
    · exact hzeros
  · intro hzeros
    exact ⟨Value.equals_iff.mpr (.inr hzeros),
      Bool.and_eq_false_iff.mpr (.inr (beq_eq_false_iff_ne.mpr hzeros.text_ne))⟩

lemma equals_comm (l m : Literal) : l.equals m = m.equals l := by
  rw [Bool.eq_iff_iff, equals_iff, equals_iff]
  constructor
  · rintro ⟨rfl, hnan⟩
    exact ⟨rfl, hnan⟩
  · rintro ⟨rfl, hnan⟩
    exact ⟨rfl, hnan⟩

/-- Literals are equal exactly when they hold the same content, floating-point numbers bit for bit,
and that is no NaN. The equality of values is coarser by the zeros of opposite signs alone. Equal
literals cannot be told apart, neither by name or by type nor by what any tree evaluates to with the
one or the other in some place. -/
theorem equality_is_identity :
    (∀ v w : Value, (mk v).equals ⟨w⟩ = true ↔ v = w ∧ v.isNaN = false) ∧
    (∀ v w : Value, (mk v).equals ⟨w⟩ = true → v.equals w = true) ∧
    (∀ v w : Value, v.equals w = true ∧ (mk v).equals ⟨w⟩ = false ↔ v.OppositeZeros w) ∧
    (∀ l m : Literal, l.equals m = m.equals l) ∧
    (∀ l m n : Literal, l.equals m = true → m.equals n = true → l.equals n = true) ∧
    (∀ l m : Literal, l.equals m = true →
      (Terminal.literal l).identifier = (Terminal.literal m).identifier ∧
      (∀ inputs, (Terminal.literal l).infer inputs = (Terminal.literal m).infer inputs) ∧
      (∀ store, (Terminal.literal l).evaluate store = (Terminal.literal m).evaluate store) ∧
      ∀ (t : Tree) (path : List Nat) (index : Nat), t.HasSlot path index →
        ∃ t₁ t₂ displaced,
          t.setChildAt path index (.terminal (.literal l)) = some (.ok ⟨t₁, displaced⟩) ∧
          t.setChildAt path index (.terminal (.literal m)) = some (.ok ⟨t₂, displaced⟩) ∧
          ∀ limits, t₁.inferWithin limits = t₂.inferWithin limits ∧
            ∀ store, t₁.evaluateWithin limits store = t₂.evaluateWithin limits store) ∧
    ∀ l : Literal, l.equals l = true ↔ l.value.isNaN = false := by
  refine ⟨fun v w => ?_, fun v w h => (Bool.and_eq_true_iff.mp h).1, fun v w => equals_differs_iff,
    equals_comm, fun l m n hlm hmn => ?_, fun l m h => ?_, fun l => ?_⟩
  · rw [equals_iff, Literal.mk.injEq]
  · obtain ⟨rfl, -⟩ := equals_iff.mp hlm
    exact hmn
  · obtain ⟨rfl, -⟩ := equals_iff.mp h
    refine ⟨rfl, fun _ => rfl, fun _ => rfl, fun t path index hslot => ?_⟩
    obtain ⟨graft, hset, -⟩ := hslot.exists_graft
    exact ⟨_, _, _, hset _, hset _, fun _ => ⟨rfl, fun _ => rfl⟩⟩
  · rw [equals_iff]
    exact and_iff_right rfl

/-- A zero beside its opposite, and twice in the slot of a division. -/
theorem equality_is_identity_of_zeros :
    let negative : Literal := ⟨.number (.float64 (.zero true))⟩
    let positive : Literal := ⟨.number (.float64 (.zero false))⟩
    let t := Tree.skeleton (.division .one)
    negative.value.equals positive.value = true ∧ negative.equals positive = false ∧
    negative.equals negative = true ∧ negative.value.equals negative.value = true ∧
    t.HasSlot [] 1 ∧ ∃ t₁ t₂ displaced,
      t.setChildAt [] 1 (.terminal (.literal negative)) = some (.ok ⟨t₁, displaced⟩) ∧
      t.setChildAt [] 1 (.terminal (.literal negative)) = some (.ok ⟨t₂, displaced⟩) ∧
      ∀ limits, t₁.inferWithin limits = t₂.inferWithin limits ∧
        ∀ store, t₁.evaluateWithin limits store = t₂.evaluateWithin limits store := by
  intro negative positive t
  obtain ⟨-, hvalues, hzeros, -, htrans, hsame, hself⟩ := equality_is_identity
  have hopposite := (hzeros negative.value positive.value).mpr (.float64 true)
  have honce : negative.equals negative = true := (hself negative).mpr (by decide)
  have htwice : negative.equals negative = true := htrans _ _ _ honce honce
  have hslot : t.HasSlot [] 1 := ⟨.division .one, rfl, by decide⟩
  exact ⟨hopposite.1, hopposite.2, htwice, hvalues _ _ honce, hslot,
    (hsame negative negative honce).2.2.2 t [] 1 hslot⟩

end Literal

end NumericTrees
