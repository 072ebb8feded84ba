import NumericTrees.Number.Coercion
import NumericTrees.Proofs.ExactValue
import NumericTrees.Proofs.IntegerQuotients
import NumericTrees.Proofs.RoundedQuotient

/-!
# Quantities

What a number stands for is a rational number, an infinity or, for a NaN, nothing. A quantity has
one counterpart in every kind: among the integers it is cut off towards zero and clamped, and among
floating-point numbers it is the nearest one. Coercion answers the counterpart, except where it
keeps the low bits of an integer.
-/

namespace NumericTrees

/-- What a number stands for, apart from its kind and the sign of a zero. -/
inductive Quantity where
  | rational (q : ℚ)
  | infinity (negative : Bool)
  | nan

namespace Quantity

/-- The integer between two bounds that stands in for a quantity: the bounds for what lies beyond
them, zero for a NaN, and else the rational number without its fraction. -/
def clamp (lo hi : Int) : Quantity → Int
  | rational q => max lo (min hi (towardZero q))
  | infinity negative => if negative then lo else hi
  | nan => 0

end Quantity

namespace Binary

variable {f : Format}

def quantity (x : Binary f) : Quantity :=
  if x.isNaN then .nan
  else if x.isInfinite then .infinity x.negative
  else .rational x.toRat

/-- The number of a format that a rational number rounds to: infinite from the overflow threshold
on, and otherwise the nearest finite one, of two equally near ones the one that ends in an even
bit. -/
structure IsNearest (x : Binary f) (q : ℚ) : Prop where
  negative_of_neg : q < 0 → x.negative = true
  nonnegative_of_pos : 0 < q → x.negative = false
  isInfinite_iff : x.isInfinite = true ↔ f.overflow ≤ |q|
  isFinite_iff : x.isFinite = true ↔ |q| < f.overflow
  nearest : x.isFinite = true → ∀ y : Binary f, y.isFinite = true →
    |x.toRat - q| ≤ |y.toRat - q|
  even : x.isFinite = true → ∀ y : Binary f, y.isFinite = true → y.toRat ≠ x.toRat →
    |y.toRat - q| = |x.toRat - q| → x.code.val % 2 = 0

/-- The number of a format that stands for a quantity. -/
def StandsFor (x : Binary f) : Quantity → Prop
  | .rational q => x.IsNearest q
  | .infinity negative => x = infinity negative
  | .nan => x.isNaN = true

end Binary

namespace Number

def quantity : Number → Quantity
  | int32 n => .rational n.toInt
  | int64 n => .rational n.toInt
  | float32 x => x.quantity
  | float64 x => x.quantity

/-- The number of a kind that stands for a quantity. -/
def StandsFor : Number → Quantity → Prop
  | int32 n, a => n.toInt = a.clamp Kind.int32.least Kind.int32.greatest
  | int64 n, a => n.toInt = a.clamp Kind.int64.least Kind.int64.greatest
  | float32 x, a => x.StandsFor a
  | float64 x, a => x.StandsFor a

end Number

/-! ### Rounding of rational numbers -/

namespace Binary

variable {f g : Format} {x y : Binary f} {q : ℚ}

lemma abs_toRat (x : Binary f) : |x.toRat| = x.units / 2 ^ f.scale := by
  have hnonneg : (0 : ℚ) ≤ x.units / 2 ^ f.scale := by positivity
  unfold toRat
  dsimp only
  split
  · rw [abs_neg, abs_of_nonneg hnonneg]
  · rw [abs_of_nonneg hnonneg]

lemma toRat_nonpos (h : x.negative = true) : x.toRat ≤ 0 := by
  have hnonneg : (0 : ℚ) ≤ x.units / 2 ^ f.scale := by positivity
  rw [toRat, if_pos h]
  linarith

lemma toRat_nonneg (h : x.negative = false) : 0 ≤ x.toRat := by
  have hnonneg : (0 : ℚ) ≤ x.units / 2 ^ f.scale := by positivity
  rw [toRat, h]
  exact hnonneg

/-- A number on the side of zero of a rational number is as far from it as their magnitudes are
from each other. -/
lemma abs_toRat_sub (hneg : q < 0 → x.negative = true) (hpos : 0 < q → x.negative = false) :
    |x.toRat - q| = |(|x.toRat| - |q|)| := by
  rcases lt_trichotomy q 0 with h | rfl | h
  · rw [abs_of_nonpos (toRat_nonpos (hneg h)), abs_of_neg h, neg_sub_neg, abs_sub_comm]
  · rw [sub_zero, abs_zero, sub_zero, abs_abs]
  · rw [abs_of_nonneg (toRat_nonneg (hpos h)), abs_of_pos h]

/-- The distance between magnitudes, in units. -/
lemma abs_units_sub (x : Binary f) (q : ℚ) :
    |(|x.toRat| - |q|)| = |(f.units x.code : ℚ) - |q| * 2 ^ f.scale| / 2 ^ f.scale := by
  have hpos : (0 : ℚ) < 2 ^ f.scale := by positivity
  rw [abs_toRat, units, eq_div_iff hpos.ne', ← abs_of_pos hpos, ← abs_mul, sub_mul,
    abs_of_pos hpos, div_mul_cancel₀ _ hpos.ne']

/-- A number and its negation are equally far from zero alone. -/
lemma eq_zero_of_abs_sub_eq {p r : ℚ} (habs : |p| = |r|) (hne : p ≠ r) (h : |p - q| = |r - q|) :
    q = 0 := by
  rw [(abs_eq_abs.mp habs).resolve_left hne] at h hne
  rcases abs_eq_abs.mp h with hsame | hmirrored
  · exact absurd (by linarith) hne
  · linarith

lemma isNearest_of_nearestTo (hneg : q < 0 → x.negative = true)
    (hpos : 0 < q → x.negative = false) (h : f.NearestTo (|q| * 2 ^ f.scale) x.code) :
    x.IsNearest q := by
  have hinfinite : x.isInfinite = true ↔ f.overflow ≤ |q| := by
    rw [isInfinite, beq_iff_eq]
    exact h.eq_infinity_iff
  have hscale : (0 : ℚ) < 2 ^ f.scale := by positivity
  have hle := h.le_infinity
  have hdistance : |x.toRat - q| =
      |(f.units x.code : ℚ) - |q| * 2 ^ f.scale| / 2 ^ f.scale := by
    rw [abs_toRat_sub hneg hpos, abs_units_sub]
  have hother (y : Binary f) :
      |(f.units y.code : ℚ) - |q| * 2 ^ f.scale| / 2 ^ f.scale ≤ |y.toRat - q| := by
    rw [← abs_units_sub]
    exact abs_abs_sub_abs_le _ _
  have hnearest (y : Binary f) (hy : y.isFinite = true) :
      |(f.units x.code : ℚ) - |q| * 2 ^ f.scale| / 2 ^ f.scale ≤
        |(f.units y.code : ℚ) - |q| * 2 ^ f.scale| / 2 ^ f.scale :=
    (div_le_div_iff_of_pos_right hscale).mpr (h.nearest _ (of_decide_eq_true hy).le)
  refine ⟨hneg, hpos, hinfinite, ?_, ?_, ?_⟩
  · rw [← not_le, ← hinfinite, isFinite, isInfinite, beq_iff_eq, decide_eq_true_eq]
    omega
  · intro _ y hy
    rw [hdistance]
    exact (hnearest y hy).trans (hother y)
  · intro _ y hy hne htie
    by_cases hcode : y.code.val = x.code.val
    · have habs : |y.toRat| = |x.toRat| := by
        rw [abs_toRat, abs_toRat, units, units, hcode]
      have hzero : q = 0 := eq_zero_of_abs_sub_eq habs hne htie
      rw [hzero, abs_zero, zero_mul] at h
      rw [h.eq_zero]
    · apply h.even y.code.val (of_decide_eq_true hy).le hcode
      have hge := hother y
      rw [htie, hdistance] at hge
      have heq := le_antisymm hge (hnearest y hy)
      exact (div_left_inj' hscale.ne').mp heq

lemma isNearest_ofUnits {negative : Bool} {num den : Nat} (hden : 0 < den)
    (hneg : q < 0 → negative = true) (hpos : 0 < q → negative = false)
    (h : (num : ℚ) / den = |q| * 2 ^ f.scale) :
    (ofUnits negative num den : Binary f).IsNearest q := by
  apply isNearest_of_nearestTo hneg hpos
  rw [← h]
  exact f.nearestTo_nearest num hden

lemma negative_of_toRat_neg (h : x.toRat < 0) : x.negative = true := by
  by_contra hnot
  rw [Bool.not_eq_true] at hnot
  exact absurd (toRat_nonneg hnot) (not_le.mpr h)

lemma nonnegative_of_toRat_pos (h : 0 < x.toRat) : x.negative = false := by
  by_contra hnot
  rw [Bool.not_eq_false] at hnot
  exact absurd (toRat_nonpos hnot) (not_le.mpr h)

lemma abs_toRat_mul (x : Binary f) : |x.toRat| * 2 ^ f.scale = f.units x.code := by
  rw [abs_toRat, div_mul_cancel₀ _ (by positivity), units]

/-- A finite number is its own rounding. -/
lemma isNearest_toRat (h : x.isFinite = true) : x.IsNearest x.toRat := by
  apply isNearest_of_nearestTo negative_of_toRat_neg nonnegative_of_toRat_pos
  rw [abs_toRat_mul]
  exact f.nearestTo_units (of_decide_eq_true h).le

/-- A rational number that a finite number of the format is rounds to that rational number. -/
lemma IsNearest.exact (hx : x.IsNearest q) (hy : y.isFinite = true) (h : y.toRat = q) :
    x.isFinite = true ∧ x.toRat = q := by
  have hfinite : x.isFinite = true := by
    rw [hx.isFinite_iff, ← h, ← (isNearest_toRat hy).isFinite_iff]
    exact hy
  have hle := hx.nearest hfinite y hy
  rw [h, sub_self, abs_zero] at hle
  exact ⟨hfinite, sub_eq_zero.mp (abs_nonpos_iff.mp hle)⟩

/-! ### Quantities of floating-point numbers -/

lemma eq_infinity_of_isInfinite (h : x.isInfinite = true) : x = infinity x.negative := by
  obtain ⟨negative, code⟩ := x
  rw [infinity, Binary.mk.injEq]
  exact ⟨rfl, Fin.ext (eq_of_beq h)⟩

lemma isNaN_infinity (negative : Bool) : (infinity negative : Binary f).isNaN = false := by
  simp [isNaN, infinity]

lemma isInfinite_infinity (negative : Bool) :
    (infinity negative : Binary f).isInfinite = true := by
  simp [isInfinite, infinity]

lemma isNaN_of_isFinite (h : x.isFinite = true) : x.isNaN = false := by
  have hlt : x.code.val < f.infinity := of_decide_eq_true h
  exact decide_eq_false (by omega)

lemma isInfinite_of_isFinite (h : x.isFinite = true) : x.isInfinite = false := by
  have hlt : x.code.val < f.infinity := of_decide_eq_true h
  exact beq_eq_false_iff_ne.mpr hlt.ne

lemma quantity_of_isNaN (h : x.isNaN = true) : x.quantity = .nan := if_pos h

lemma quantity_infinity (negative : Bool) :
    (infinity negative : Binary f).quantity = .infinity negative := by
  rw [quantity, isNaN_infinity, isInfinite_infinity]
  rfl

lemma quantity_of_isFinite (h : x.isFinite = true) : x.quantity = .rational x.toRat := by
  rw [quantity, isNaN_of_isFinite h, isInfinite_of_isFinite h]
  rfl

/-- A number is a NaN, an infinity or finite. -/
lemma nan_or_infinity_or_finite (x : Binary f) :
    x.isNaN = true ∨ (∃ negative, x = infinity negative) ∨ x.isFinite = true := by
  rcases Nat.lt_trichotomy x.code.val f.infinity with hlt | heq | hgt
  · exact .inr (.inr (decide_eq_true hlt))
  · exact .inr (.inl ⟨_, eq_infinity_of_isInfinite (beq_iff_eq.mpr heq)⟩)
  · exact .inl (decide_eq_true hgt)

lemma quantity_eq_rational_iff :
    x.quantity = .rational q ↔ x.isFinite = true ∧ x.toRat = q := by
  constructor
  · intro h
    obtain hnan | ⟨negative, rfl⟩ | hfinite := x.nan_or_infinity_or_finite
    · cases (quantity_of_isNaN hnan).symm.trans h
    · cases (quantity_infinity negative).symm.trans h
    · exact ⟨hfinite, Quantity.rational.inj ((quantity_of_isFinite hfinite).symm.trans h)⟩
  · rintro ⟨hfinite, rfl⟩
    exact quantity_of_isFinite hfinite

lemma clamp_quantity (lo hi : Int) (x : Binary f) :
    x.quantity.clamp lo hi = x.toIntWithin lo hi := by
  unfold quantity toIntWithin
  rw [truncate_eq]
  split
  · rfl
  · split
    · rfl
    · rfl

lemma standsFor_quantity (x : Binary f) : x.StandsFor x.quantity := by
  obtain hnan | ⟨negative, rfl⟩ | hfinite := x.nan_or_infinity_or_finite
  · rw [quantity_of_isNaN hnan]
    exact hnan
  · rw [quantity_infinity]
    rfl
  · rw [quantity_of_isFinite hfinite]
    exact isNearest_toRat hfinite

lemma isNearest_ofInt (n : Int) : (ofInt n : Binary f).IsNearest n := by
  apply isNearest_ofUnits Nat.one_pos
  · intro h
    exact decide_eq_true (by exact_mod_cast h)
  · intro h
    exact decide_eq_false (by exact_mod_cast h.le.not_gt)
  · have hpow : Nat.pow 2 f.scale = 2 ^ f.scale := rfl
    rw [hpow, Nat.cast_one, div_one, Nat.cast_mul, Nat.cast_pow, Nat.cast_natAbs, Int.cast_abs]
    rfl

lemma convert_of_isFinite (h : x.isFinite = true) :
    x.convert g = ofUnits x.negative (x.units * Nat.pow 2 g.scale) (Nat.pow 2 f.scale) := by
  rw [convert, isNaN_of_isFinite h, isInfinite_of_isFinite h]
  rfl

lemma convert_infinity (negative : Bool) :
    (infinity negative : Binary f).convert g = infinity negative := by
  rw [convert, isNaN_infinity, isInfinite_infinity]
  rfl

lemma standsFor_convert (x : Binary f) : (x.convert g).StandsFor x.quantity := by
  obtain hnan | ⟨negative, rfl⟩ | hfinite := x.nan_or_infinity_or_finite
  · rw [quantity_of_isNaN hnan, convert, if_pos hnan]
    exact isNaN_nan
  · rw [quantity_infinity, convert_infinity]
    rfl
  · rw [quantity_of_isFinite hfinite, convert_of_isFinite hfinite]
    apply isNearest_ofUnits (Nat.two_pow_pos _) negative_of_toRat_neg nonnegative_of_toRat_pos
    have hpow : Nat.pow 2 g.scale = 2 ^ g.scale := rfl
    rw [abs_toRat, hpow]
    push_cast
    ring

end Binary

/-! ### Counterparts of quantities -/

lemma towardZero_intCast (n : Int) : towardZero n = n := by
  unfold towardZero
  split
  · exact Int.ceil_intCast n
  · exact Int.floor_intCast n

lemma Quantity.clamp_intCast {lo hi n : Int} (hlo : lo ≤ n) (hhi : n ≤ hi) :
    (rational n).clamp lo hi = n := by
  rw [clamp, towardZero_intCast, min_eq_right hhi, max_eq_right hlo]

namespace Number

lemma toInt32_clamps {f : Format} (x : Binary f) :
    (Int32.ofInt (x.toIntWithin Int32.minValue.toInt Int32.maxValue.toInt)).toInt =
      x.quantity.clamp Kind.int32.least Kind.int32.greatest := by
  rw [toInt_ofInt_int32, Binary.clamp_quantity]

lemma toInt64_clamps {f : Format} (x : Binary f) :
    (Int64.ofInt (x.toIntWithin Int64.minValue.toInt Int64.maxValue.toInt)).toInt =
      x.quantity.clamp Kind.int64.least Kind.int64.greatest := by
  rw [toInt_ofInt_int64, Binary.clamp_quantity]

/-- Coercion answers the number of the kind that stands for the quantity of a number, unless it
narrows an integer. -/
lemma standsFor_coerce {n : Number} {k : Kind} (h : ¬ (n.kind = .int64 ∧ k = .int32)) :
    (n.coerce k).StandsFor n.quantity := by
  cases n with
  | int32 i =>
    cases k with
    | int32 => exact (Quantity.clamp_intCast i.minValue_le_toInt i.toInt_le).symm
    | int64 =>
      have hrange := bounds_of_integer? (integer?_coerce (n := int32 i) rfl (k := .int64)
        (show Kind.int32 ≤ .int64 by decide) le_rfl)
      exact i.toInt_toInt64.trans (Quantity.clamp_intCast hrange.1 hrange.2).symm
    | float32 => exact Binary.isNearest_ofInt _
    | float64 => exact Binary.isNearest_ofInt _
  | int64 i =>
    cases k with
    | int32 => exact absurd ⟨rfl, rfl⟩ h
    | int64 => exact (Quantity.clamp_intCast i.minValue_le_toInt i.toInt_le).symm
    | float32 => exact Binary.isNearest_ofInt _
    | float64 => exact Binary.isNearest_ofInt _
  | float32 x =>
    cases k with
    | int32 => exact toInt32_clamps x
    | int64 => exact toInt64_clamps x
    | float32 => exact x.standsFor_quantity
    | float64 => exact x.standsFor_convert
  | float64 x =>
    cases k with
    | int32 => exact toInt32_clamps x
    | int64 => exact toInt64_clamps x
    | float32 => exact x.standsFor_convert
    | float64 => exact x.standsFor_quantity

end Number

end NumericTrees
