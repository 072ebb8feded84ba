import NumericTrees.Proofs.CoercionOrder

/-!
# Quotients of finite numbers

A protected division of finite numbers is never NaN, and it is infinite in two cases alone: the
exact quotient of the operands in the wider kind is too large for that kind, or the divisor is zero
and the protection value, a double, is too large for the numbers of 32 bits. Widening itself never
overflows, and a division by zero never reaches the quotient.
-/

namespace NumericTrees

/-- The least rational number that is too large for a floating-point kind. The integers clamp or
wrap round instead. -/
def Kind.overflow? : Kind → Option ℚ
  | .int32 | .int64 => none
  | .float32 => some Format.single.overflow
  | .float64 => some Format.double.overflow

lemma Kind.overflow?_eq_none {k : Kind} (h : k.isIntegral = true) : k.overflow? = none := by
  cases k with
  | int32 | int64 => rfl
  | float32 | float64 => cases h

/-- Whether a number is neither NaN nor infinite. -/
def Number.isFinite : Number → Bool
  | .int32 _ | .int64 _ => true
  | .float32 x => x.isFinite
  | .float64 x => x.isFinite

/-- The greatest power of two in a format is below the overflow threshold. -/
lemma Format.two_zpow_le_overflow (f : Format) :
    (2 : ℚ) ^ ((2 : Int) ^ (f.exponentBits - 1) - 1) ≤ f.overflow := by
  obtain ⟨top, htop⟩ : ∃ top : Int, top = 2 ^ (f.exponentBits - 1) := ⟨_, rfl⟩
  have hgap : (2 : ℚ) ^ (top - f.fractionBits - 2) ≤ 2 ^ (top - 1) :=
    zpow_le_zpow_right₀ one_le_two (by omega)
  have hdouble : (2 : ℚ) ^ top = 2 * 2 ^ (top - 1) := by
    rw [← zpow_one_add₀ two_ne_zero, add_sub_cancel]
  rw [overflow, ← htop]
  linarith

namespace Binary

variable {f : Format} {x y : Binary f} {q : ℚ}

lemma quantity_eq_infinity_iff :
    (∃ negative, x.quantity = .infinity negative) ↔ x.isInfinite = true := by
  constructor
  · rintro ⟨negative, h⟩
    obtain hnan | ⟨_, rfl⟩ | hfinite := x.nan_or_infinity_or_finite
    · cases (quantity_of_isNaN hnan).symm.trans h
    · exact isInfinite_infinity _
    · cases (quantity_of_isFinite hfinite).symm.trans h
  · intro h
    rw [eq_infinity_of_isInfinite h]
    exact ⟨_, quantity_infinity _⟩

lemma toRat_eq_zero_iff : x.toRat = 0 ↔ x.isZero = true := by
  have hpos : (2 : ℚ) ^ f.scale ≠ 0 := by positivity
  rw [← abs_eq_zero, abs_toRat, div_eq_zero_iff, or_iff_left hpos, Nat.cast_eq_zero,
    units_eq_zero_iff, isZero, beq_iff_eq]

lemma div_of_isFinite (hx : x.isFinite = true) (hy : y.isFinite = true)
    (hzero : y.isZero = false) :
    x.div y =
      ofUnits (x.negative != y.negative) (x.units * Nat.pow 2 f.scale) y.units := by
  simp only [div, isNaN_of_isFinite hx, isNaN_of_isFinite hy, isInfinite_of_isFinite hx,
    isInfinite_of_isFinite hy, hzero, Bool.or_self, Bool.false_eq_true, if_false]

/-- Division answers the exact quotient, rounded once. -/
lemma isNearest_div (hx : x.isFinite = true) (hy : y.isFinite = true) (hzero : y.isZero = false) :
    (x.div y).IsNearest (x.toRat / y.toRat) := by
  have hunits : 0 < y.units := by
    rw [Nat.pos_iff_ne_zero, Ne, units_eq_zero_iff]
    exact beq_eq_false_iff_ne.mp hzero
  rw [div_of_isFinite hx hy hzero]
  apply isNearest_ofUnits hunits
  · intro h
    rcases div_neg_iff.mp h with ⟨hpos, hneg⟩ | ⟨hneg, hpos⟩
    · rw [nonnegative_of_toRat_pos hpos, negative_of_toRat_neg hneg]
      rfl
    · rw [nonnegative_of_toRat_pos hpos, negative_of_toRat_neg hneg]
      rfl
  · intro h
    rcases div_pos_iff.mp h with ⟨hpos, hpos'⟩ | ⟨hneg, hneg'⟩
    · rw [nonnegative_of_toRat_pos hpos, nonnegative_of_toRat_pos hpos']
      rfl
    · rw [negative_of_toRat_neg hneg, negative_of_toRat_neg hneg']
      rfl
  · have hpow : Nat.pow 2 f.scale = 2 ^ f.scale := rfl
    have hne : (y.units : ℚ) ≠ 0 := by exact_mod_cast hunits.ne'
    rw [abs_div, abs_toRat, abs_toRat, hpow]
    push_cast
    field_simp

/-- A format whose exponents go up to 64 has room for all integers of 64 bits. -/
lemma isFinite_ofInt {i : Int} (h : i.natAbs ≤ 2 ^ 63)
    (hroom : 64 < (2 : Int) ^ (f.exponentBits - 1)) : (ofInt i : Binary f).isFinite = true := by
  rw [(isNearest_ofInt i).isFinite_iff]
  calc |(i : ℚ)| = (i.natAbs : ℚ) := by rw [Nat.cast_natAbs, Int.cast_abs]
    _ ≤ 2 ^ (63 : Int) := by exact_mod_cast h
    _ < 2 ^ ((2 : Int) ^ (f.exponentBits - 1) - 1) :=
      zpow_lt_zpow_right₀ one_lt_two (by omega)
    _ ≤ f.overflow := f.two_zpow_le_overflow

end Binary

namespace Number

variable {a b n : Number} {k : Kind} {p q : ℚ}

lemma isFinite_iff : n.isFinite = true ↔ ∃ q, n.quantity = .rational q := by
  cases n with
  | int32 i | int64 i => exact ⟨fun _ => ⟨_, rfl⟩, fun _ => rfl⟩
  | float32 x | float64 x =>
    exact ⟨fun h => ⟨_, Binary.quantity_of_isFinite h⟩,
      fun ⟨_, h⟩ => (Binary.quantity_eq_rational_iff.mp h).1⟩

lemma isFinite_of_isIntegral (h : n.kind.isIntegral = true) : n.isFinite = true := by
  cases n with
  | int32 i | int64 i => rfl
  | float32 x | float64 x => cases h

/-- Widening does not overflow. -/
lemma isFinite_coerce (hn : n.isFinite = true) (h : n.kind ≤ k) :
    (n.coerce k).isFinite = true := by
  cases n with
  | int32 i =>
    have hlower := i.le_toInt
    have hupper := i.toInt_lt
    cases k with
    | int32 | int64 => rfl
    | float32 | float64 => exact Binary.isFinite_ofInt (by omega) (by decide)
  | int64 i =>
    have hlower := i.le_toInt
    have hupper := i.toInt_lt
    cases k with
    | int32 | int64 => rfl
    | float32 | float64 => exact Binary.isFinite_ofInt (by omega) (by decide)
  | float32 x =>
    cases k with
    | int32 | int64 => rfl
    | float32 => exact hn
    | float64 =>
      have hquantity : (float32 x).quantity = .rational x.toRat := Binary.quantity_of_isFinite hn
      exact isFinite_iff.mpr
        ⟨_, quantity_coerce hquantity (float64_represents_single (x := x) hn)⟩
  | float64 x =>
    cases k with
    | int32 | int64 => rfl
    | float32 => exact absurd h (show ¬ Kind.float64 ≤ .float32 by decide)
    | float64 => exact hn

lemma isZero_iff_of_quantity (h : n.quantity = .rational q) : n.isZero = true ↔ q = 0 := by
  cases n with
  | int32 i =>
    obtain rfl : (i.toInt : ℚ) = q := Quantity.rational.inj h
    rw [isZero_of_integer? rfl, Int.cast_eq_zero]
  | int64 i =>
    obtain rfl : (i.toInt : ℚ) = q := Quantity.rational.inj h
    rw [isZero_of_integer? rfl, Int.cast_eq_zero]
  | float32 x | float64 x =>
    obtain ⟨-, rfl⟩ := Binary.quantity_eq_rational_iff.mp h
    exact Binary.toRat_eq_zero_iff.symm

/-- What stands for a rational number is infinite from the overflow threshold of its kind on. -/
lemma StandsFor.infinite_iff (h : n.StandsFor (.rational q)) :
    (∃ negative, n.quantity = .infinity negative) ↔
      ∃ limit, n.kind.overflow? = some limit ∧ limit ≤ |q| := by
  cases n with
  | int32 i | int64 i =>
    constructor
    · rintro ⟨_, hinfinite⟩
      cases hinfinite
    · rintro ⟨_, hlimit, _⟩
      cases hlimit
  | float32 x | float64 x =>
    have hinfinite := Binary.quantity_eq_infinity_iff.trans (Binary.IsNearest.isInfinite_iff h)
    refine hinfinite.trans ⟨fun hle => ⟨_, rfl, hle⟩, ?_⟩
    rintro ⟨_, hlimit, hle⟩
    cases hlimit
    exact hle

/-- A quotient of finite floating-point numbers is the exact one, rounded once. -/
lemma standsFor_quotient (hk : k.isIntegral = false) (ha : (a.coerce k).quantity = .rational p)
    (hb : (b.coerce k).quantity = .rational q) (hzero : (b.coerce k).isZero = false) :
    (quotient k a b).StandsFor (.rational (p / q)) := by
  cases k with
  | int32 | int64 => cases hk
  | float32 | float64 =>
    obtain ⟨hx, rfl⟩ := Binary.quantity_eq_rational_iff.mp ha
    obtain ⟨hy, rfl⟩ := Binary.quantity_eq_rational_iff.mp hb
    exact Binary.isNearest_div hx hy hzero

/-! ### Protected quotients -/

lemma standsFor_divide_zero {protection : Double} (hprotection : protection.isFinite = true)
    (a : Number) (hb : b.isZero = true) :
    (divide protection a b).StandsFor (.rational protection.toRat) := by
  have hquantity : (float64 protection).quantity = .rational protection.toRat :=
    Binary.quantity_of_isFinite hprotection
  rw [divide_eq, if_pos hb, ← hquantity]
  exact standsFor_coerce (by rintro ⟨hkind, -⟩; cases hkind)

/-- A protection value that is no number of 32 bits overflows in that kind alone: the integers clamp
it, and among the doubles it is finite as it stands. -/
lemma overflow?_protection {protection : Double} (hprotection : protection.isFinite = true) :
    (∃ limit, k.overflow? = some limit ∧ limit ≤ |protection.toRat|) ↔
      ∃ limit, k.overflow? = some limit ∧ k = .float32 ∧ limit ≤ |protection.toRat| := by
  constructor
  · rintro ⟨limit, hlimit, hle⟩
    refine ⟨limit, hlimit, ?_, hle⟩
    cases k with
    | int32 | int64 => cases hlimit
    | float32 => rfl
    | float64 =>
      cases hlimit
      exact absurd hle
        (not_le.mpr ((Binary.isNearest_toRat hprotection).isFinite_iff.mp hprotection))
  · rintro ⟨limit, hlimit, -, hle⟩
    exact ⟨limit, hlimit, hle⟩

lemma standsFor_divide (protection : Double) (hk : (a.kind.widen b.kind).isIntegral = false)
    (hzero : b.isZero = false) (ha : (a.coerce (a.kind.widen b.kind)).quantity = .rational p)
    (hb : (b.coerce (a.kind.widen b.kind)).quantity = .rational q) :
    (divide protection a b).StandsFor (.rational (p / q)) := by
  have hwider : b.kind ≤ a.kind.widen b.kind := le_max_right a.kind b.kind
  rw [divide_eq, if_neg (by simp [hzero])]
  exact standsFor_quotient hk ha hb (by rw [isZero_coerce hwider, hzero])

/-- A protected division of finite numbers is never NaN, and it is infinite by overflow alone. Both
operands are still finite in the wider kind. With a divisor other than zero a floating-point result
is their exact quotient, rounded once, and it is infinite where that quotient is too large for the
kind. In place of a quotient by zero, an infinity stands only for a protection value that is too
large for the numbers of 32 bits. -/
theorem divide_finite_numbers {protection : Double} (hprotection : protection.isFinite = true)
    (ha : a.isFinite = true) (hb : b.isFinite = true) :
    let kind := a.kind.widen b.kind
    let result := divide protection a b
    ∃ p q : ℚ, (a.coerce kind).quantity = .rational p ∧ (b.coerce kind).quantity = .rational q ∧
      (b.isZero = true ↔ q = 0) ∧
      (kind.isIntegral = false → b.isZero = false → result.StandsFor (.rational (p / q))) ∧
      result.quantity ≠ .nan ∧
      ((∃ negative, result.quantity = .infinity negative) ↔
        ∃ limit, kind.overflow? = some limit ∧
          (b.isZero = false ∧ limit ≤ |p / q| ∨
            b.isZero = true ∧ kind = .float32 ∧ limit ≤ |protection.toRat|)) := by
  intro kind result
  have hwider : b.kind ≤ kind := le_max_right a.kind b.kind
  have hkind : result.kind = kind := kind_divide protection a b
  obtain ⟨p, hp⟩ := isFinite_iff.mp (isFinite_coerce ha (le_max_left a.kind b.kind))
  obtain ⟨q, hq⟩ := isFinite_iff.mp (isFinite_coerce hb hwider)
  have hzero : b.isZero = true ↔ q = 0 := by
    rw [← isZero_iff_of_quantity hq, isZero_coerce hwider]
  have hquotient (hk : kind.isIntegral = false) (h : b.isZero = false) :
      result.StandsFor (.rational (p / q)) := standsFor_divide protection hk h hp hq
  refine ⟨p, q, hp, hq, hzero, hquotient, ?_⟩
  cases hb : b.isZero with
  | true =>
    have hstands := standsFor_divide_zero hprotection a hb
    refine ⟨hstands.quantity_ne_nan (by simp), hstands.infinite_iff.trans ?_⟩
    rw [kind_divide, overflow?_protection hprotection]
    simp [kind]
  | false =>
    cases hk : kind.isIntegral with
    | true =>
      -- Among the integers there are neither NaNs nor infinities.
      obtain ⟨r, hr⟩ := isFinite_iff.mp (isFinite_of_isIntegral (n := result) (by rw [hkind, hk]))
      simp [hr, Kind.overflow?_eq_none hk]
    | false =>
      have hstands := hquotient hk hb
      refine ⟨hstands.quantity_ne_nan (by simp), hstands.infinite_iff.trans ?_⟩
      rw [hkind]
      simp

/-- The greatest integer of 64 bits by the least number of 32 bits, and by a negative zero under a
protection value that only the doubles have. -/
theorem divide_finite_numbers_beyond_range :
    let large : Double := .ofBits 0x47F0000000000000
    let greatest : Number := .int64 9223372036854775807
    let least : Number := .float32 (.ofBits 1)
    let zero : Number := .float32 (.zero true)
    large.isFinite = true ∧ greatest.isFinite = true ∧ least.isFinite = true ∧
    zero.isFinite = true ∧
    divide large greatest least = .float32 (.infinity false) ∧
    (∃ p q : ℚ, (greatest.coerce .float32).quantity = .rational p ∧
      (least.coerce .float32).quantity = .rational q ∧ Format.single.overflow ≤ |p / q|) ∧
    divide large greatest zero = .float32 (.infinity false) ∧
    Format.single.overflow ≤ |large.toRat| := by
  intro large greatest least zero
  have hlarge : large.isFinite = true := by decide
  have hgreatest : greatest.isFinite = true := rfl
  have hleast : least.isFinite = true := by decide
  have hzero : zero.isFinite = true := by decide
  have hoverflows : divide large greatest least = .float32 (.infinity false) := by decide +kernel
  have hprotected : divide large greatest zero = .float32 (.infinity false) := by decide +kernel
  have hinfinite : (float32 (.infinity false)).quantity = .infinity false :=
    Binary.quantity_infinity false
  obtain ⟨p, q, hp, hq, -, -, -, hquotient⟩ := divide_finite_numbers hlarge hgreatest hleast
  obtain ⟨_, _, -, -, -, -, -, hprotection⟩ := divide_finite_numbers hlarge hgreatest hzero
  rw [hoverflows] at hquotient
  rw [hprotected] at hprotection
  obtain ⟨limit, hlimit, ⟨-, hle⟩ | ⟨hnone, -⟩⟩ := hquotient.mp ⟨false, hinfinite⟩
  · obtain ⟨limit', hlimit', ⟨hnone, -⟩ | ⟨-, -, hle'⟩⟩ := hprotection.mp ⟨false, hinfinite⟩
    · cases hnone
    · cases hlimit
      cases hlimit'
      exact ⟨hlarge, hgreatest, hleast, hzero, hoverflows, ⟨p, q, hp, hq, hle⟩, hprotected, hle'⟩
  · cases hnone

end Number

end NumericTrees
