import NumericTrees.Proofs.WorkingKind

/-!
# NaNs counting as one

No operation on numbers tells two NaNs of one kind apart, but for the power: where its exponent is
zero, or its base is one, it is one beside a quiet NaN and NaN beside a signaling one.
-/

namespace NumericTrees

namespace Binary

variable {f : Format} {x y : Binary f}

/-- The number, all NaNs counting as one. -/
def mergeNaNs (x : Binary f) : Binary f := if x.isNaN then nan else x

lemma isNaN_ofUnits (negative : Bool) (num den : Nat) :
    (ofUnits negative num den : Binary f).isNaN = false := by
  have hle := f.nearest_le_infinity num den
  apply decide_eq_false
  change ¬ f.infinity < f.nearest num den
  omega

lemma isSignaling_of_not_isNaN (h : x.isNaN = false) : x.isSignaling = false := by
  rw [isSignaling, h, Bool.false_and]

lemma isSignaling_nan : (nan : Binary f).isSignaling = false := by
  simp [isSignaling]

lemma isSignaling_convert (g : Format) (x : Binary f) : (x.convert g).isSignaling = false := by
  unfold convert
  split
  · exact isSignaling_nan
  · split
    · apply isSignaling_of_not_isNaN
      simp [isNaN, infinity]
    · exact isSignaling_of_not_isNaN (isNaN_ofUnits _ _ _)

lemma ne_one_of_isNaN (h : x.isNaN = true) : (x == one) = false := by
  have hone : (one : Binary f).isNaN = false := isNaN_ofUnits _ _ _
  apply beq_eq_false_iff_ne.mpr
  intro heq
  rw [heq, hone] at h
  contradiction

lemma mergeNaNs_of_isNaN (h : x.isNaN = true) : x.mergeNaNs = nan := if_pos h

lemma mergeNaNs_eq_self (h : x.isNaN = false) : x.mergeNaNs = x := by
  simp [mergeNaNs, h]

lemma isNaN_mergeNaNs (x : Binary f) : x.mergeNaNs.isNaN = x.isNaN := by
  cases h : x.isNaN with
  | true => rw [mergeNaNs_of_isNaN h, isNaN_nan]
  | false => rw [mergeNaNs_eq_self h, h]

lemma mergeNaNs_eq_iff :
    x.mergeNaNs = y.mergeNaNs ↔ x = y ∨ (x.isNaN = true ∧ y.isNaN = true) := by
  constructor
  · intro h
    have hnan : x.isNaN = y.isNaN := by
      rw [← isNaN_mergeNaNs x, h, isNaN_mergeNaNs]
    cases hx : x.isNaN with
    | true => exact .inr ⟨rfl, hnan ▸ hx⟩
    | false =>
      rw [mergeNaNs_eq_self hx, mergeNaNs_eq_self (hnan ▸ hx)] at h
      exact .inl h
  · rintro (rfl | ⟨hx, hy⟩)
    · rfl
    · rw [mergeNaNs_of_isNaN hx, mergeNaNs_of_isNaN hy]

lemma mergeNaNs_mergeNaNs (x : Binary f) : x.mergeNaNs.mergeNaNs = x.mergeNaNs := by
  cases h : x.isNaN with
  | true => rw [mergeNaNs_of_isNaN h, mergeNaNs_of_isNaN isNaN_nan]
  | false => rw [mergeNaNs_eq_self h, mergeNaNs_eq_self h]

/-! ### What the operations see -/

lemma isZero_mergeNaNs (x : Binary f) : x.mergeNaNs.isZero = x.isZero := by
  cases h : x.isNaN with
  | true => rw [mergeNaNs_of_isNaN h, isZero_of_isNaN h, isZero_of_isNaN isNaN_nan]
  | false => rw [mergeNaNs_eq_self h]

lemma toIntWithin_mergeNaNs (lo hi : Int) (x : Binary f) :
    x.mergeNaNs.toIntWithin lo hi = x.toIntWithin lo hi := by
  cases h : x.isNaN with
  | true => simp [mergeNaNs_of_isNaN h, toIntWithin, isNaN_nan, h]
  | false => rw [mergeNaNs_eq_self h]

lemma convert_mergeNaNs (g : Format) (x : Binary f) : x.mergeNaNs.convert g = x.convert g := by
  cases h : x.isNaN with
  | true => simp [mergeNaNs_of_isNaN h, convert, isNaN_nan, h]
  | false => rw [mergeNaNs_eq_self h]

lemma mul_mergeNaNs (x y : Binary f) : x.mergeNaNs.mul y.mergeNaNs = x.mul y := by
  cases hx : x.isNaN with
  | true => simp [mul, isNaN_mergeNaNs, hx]
  | false =>
    cases hy : y.isNaN with
    | true => simp [mul, isNaN_mergeNaNs, hy]
    | false => rw [mergeNaNs_eq_self hx, mergeNaNs_eq_self hy]

lemma div_mergeNaNs (x y : Binary f) : x.mergeNaNs.div y.mergeNaNs = x.div y := by
  cases hx : x.isNaN with
  | true => simp [div, isNaN_mergeNaNs, hx]
  | false =>
    cases hy : y.isNaN with
    | true => simp [div, isNaN_mergeNaNs, hy]
    | false => rw [mergeNaNs_eq_self hx, mergeNaNs_eq_self hy]

lemma pow_base_congr {x x' y : Double} (hx : x.mergeNaNs = x'.mergeNaNs)
    (hsignals : y.isZero = true → x.isSignaling = x'.isSignaling) : x.pow y = x'.pow y := by
  rcases mergeNaNs_eq_iff.mp hx with rfl | ⟨hx, hx'⟩
  · rfl
  -- The exponent is asked for zero before the base is asked for NaN.
  · cases hy : y.isZero with
    | true => simp [pow, hsignals hy, hy]
    | false => simp [pow, hy, hx, hx', ne_one_of_isNaN]

lemma pow_exponent_congr {x y y' : Double} (hy : y.mergeNaNs = y'.mergeNaNs)
    (hsignals : x = one → y.isSignaling = y'.isSignaling) : x.pow y = x.pow y' := by
  rcases mergeNaNs_eq_iff.mp hy with rfl | ⟨hy, hy'⟩
  · rfl
  · by_cases hx : x = one
    · simp [pow, hsignals hx, hx]
    · simp [pow, hx, hy, hy', isZero_of_isNaN]

end Binary

namespace Number

/-- The number, all NaNs of its kind counting as one. -/
def mergeNaNs : Number → Number
  | int32 n => int32 n
  | int64 n => int64 n
  | float32 x => float32 x.mergeNaNs
  | float64 x => float64 x.mergeNaNs

/-- Whether the double for a number is a signaling NaN. Conversions answer quiet ones. -/
def isSignaling : Number → Bool
  | int32 _ | int64 _ | float32 _ => false
  | float64 x => x.isSignaling

lemma kind_mergeNaNs (n : Number) : n.mergeNaNs.kind = n.kind := by
  cases n <;> rfl

lemma isZero_mergeNaNs (n : Number) : n.mergeNaNs.isZero = n.isZero := by
  cases n with
  | int32 n => rfl
  | int64 n => rfl
  | float32 x => exact x.isZero_mergeNaNs
  | float64 x => exact x.isZero_mergeNaNs

lemma toInt32_mergeNaNs (n : Number) : n.mergeNaNs.toInt32 = n.toInt32 := by
  cases n with
  | int32 n => rfl
  | int64 n => rfl
  | float32 x => exact congrArg Int32.ofInt (x.toIntWithin_mergeNaNs _ _)
  | float64 x => exact congrArg Int32.ofInt (x.toIntWithin_mergeNaNs _ _)

lemma toInt64_mergeNaNs (n : Number) : n.mergeNaNs.toInt64 = n.toInt64 := by
  cases n with
  | int32 n => rfl
  | int64 n => rfl
  | float32 x => exact congrArg Int64.ofInt (x.toIntWithin_mergeNaNs _ _)
  | float64 x => exact congrArg Int64.ofInt (x.toIntWithin_mergeNaNs _ _)

lemma toSingle_mergeNaNs (n : Number) : n.mergeNaNs.toSingle.mergeNaNs = n.toSingle.mergeNaNs := by
  cases n with
  | int32 n => rfl
  | int64 n => rfl
  | float32 x => exact x.mergeNaNs_mergeNaNs
  | float64 x => exact congrArg Binary.mergeNaNs (x.convert_mergeNaNs .single)

lemma toDouble_mergeNaNs (n : Number) : n.mergeNaNs.toDouble.mergeNaNs = n.toDouble.mergeNaNs := by
  cases n with
  | int32 n => rfl
  | int64 n => rfl
  | float32 x => exact congrArg Binary.mergeNaNs (x.convert_mergeNaNs .double)
  | float64 x => exact x.mergeNaNs_mergeNaNs

lemma quotient_mergeNaNs (k : Kind) (a b : Number) :
    quotient k a.mergeNaNs b.mergeNaNs = quotient k a b := by
  cases k with
  | int32 => rw [quotient, toInt32_mergeNaNs, toInt32_mergeNaNs, quotient]
  | int64 => rw [quotient, toInt64_mergeNaNs, toInt64_mergeNaNs, quotient]
  | float32 =>
    rw [quotient, ← Binary.div_mergeNaNs, toSingle_mergeNaNs, toSingle_mergeNaNs,
      Binary.div_mergeNaNs, quotient]
  | float64 =>
    rw [quotient, ← Binary.div_mergeNaNs, toDouble_mergeNaNs, toDouble_mergeNaNs,
      Binary.div_mergeNaNs, quotient]

lemma divide_mergeNaNs (protection : Double) (a b : Number) :
    divide protection a.mergeNaNs b.mergeNaNs = divide protection a b := by
  rw [divide_eq, divide_eq, isZero_mergeNaNs, kind_mergeNaNs, kind_mergeNaNs, quotient_mergeNaNs]

lemma isSignaling_toDouble (n : Number) : n.toDouble.isSignaling = n.isSignaling := by
  cases n with
  | int32 n => exact Binary.isSignaling_of_not_isNaN (Binary.isNaN_ofUnits _ _ _)
  | int64 n => exact Binary.isSignaling_of_not_isNaN (Binary.isNaN_ofUnits _ _ _)
  | float32 x => exact x.isSignaling_convert .double
  | float64 x => rfl

lemma toDouble_congr {n n' : Number} (h : n.mergeNaNs = n'.mergeNaNs) :
    n.toDouble.mergeNaNs = n'.toDouble.mergeNaNs := by
  rw [← toDouble_mergeNaNs, h, toDouble_mergeNaNs]

end Number

end NumericTrees
