import Mathlib.Data.Int.ModEq
import NumericTrees.Proofs.Quantity

/-!
# Exact coercions

A coercion keeps the value of every number that the target kind has a number for, and then leads
back to the number that it came from, but for the sign of a zero that went through an integer. All
integers of 32 bits and all finite floating-point numbers of 32 bits survive in the doubles, because
a double has room for their significands and exponents.
-/

namespace NumericTrees

/-- Some number of the kind is the rational number. -/
def Kind.Represents (k : Kind) (q : ℚ) : Prop :=
  ∃ m : Number, m.kind = k ∧ m.quantity = .rational q

lemma Kind.Represents.elim {k : Kind} {q : ℚ} (h : k.Represents q) :
    match k with
    | .int32 => ∃ i : Int32, (i.toInt : ℚ) = q
    | .int64 => ∃ i : Int64, (i.toInt : ℚ) = q
    | .float32 => ∃ x : Single, x.isFinite = true ∧ x.toRat = q
    | .float64 => ∃ x : Double, x.isFinite = true ∧ x.toRat = q := by
  obtain ⟨m, rfl, hm⟩ := h
  cases m with
  | int32 i => exact ⟨i, Quantity.rational.inj hm⟩
  | int64 i => exact ⟨i, Quantity.rational.inj hm⟩
  | float32 x => exact ⟨x, Binary.quantity_eq_rational_iff.mp hm⟩
  | float64 x => exact ⟨x, Binary.quantity_eq_rational_iff.mp hm⟩

namespace Format

/-- Every significand that fits counts any number of steps in some code. -/
lemma exists_code (f : Format) {m : Nat} (hm : m < 2 * f.hidden) (s : Nat) :
    ∃ code ≤ s * f.hidden + m, f.units code = m * 2 ^ s := by
  induction s generalizing m with
  | zero => exact ⟨0 * f.hidden + m, le_rfl, units_eq (.inl rfl) hm.le⟩
  | succ s ih =>
    rcases Nat.lt_or_ge m f.hidden with hsmall | hleading
    · obtain ⟨code, hle, hunits⟩ := ih (m := 2 * m) (by omega)
      refine ⟨code, ?_, ?_⟩
      · rw [Nat.succ_mul]
        omega
      · rw [hunits]
        ring
    · exact ⟨(s + 1) * f.hidden + m, le_rfl, units_eq (.inr hleading) hm.le⟩

end Format

namespace Binary

variable {f g : Format} {x y : Binary f} {q : ℚ}

/-- A finite number with the given sign that counts `2 ^ s` units. -/
lemma exists_isFinite_units (f : Format) (negative : Bool) {m s : Nat} (hm : m < 2 * f.hidden)
    (hfits : s * f.hidden + m < f.infinity) :
    ∃ x : Binary f, x.isFinite = true ∧ x.negative = negative ∧ x.units = m * 2 ^ s := by
  obtain ⟨code, hle, hunits⟩ := f.exists_code hm s
  have hlt : code < f.infinity := hle.trans_lt hfits
  exact ⟨⟨negative, ⟨code, hlt.trans f.infinity_lt_codes⟩⟩, decide_eq_true hlt, rfl, hunits⟩

lemma eq_or_isZero_of_toRat_eq (h : x.toRat = y.toRat) :
    x = y ∨ x.isZero = true ∧ y.isZero = true := by
  have hunits : (f.units x.code : ℚ) = f.units y.code := by
    rw [← abs_toRat_mul, ← abs_toRat_mul, h]
  have hcode : x.code.val = y.code.val := f.units_strictMono.injective (by exact_mod_cast hunits)
  by_cases hsign : x.negative = y.negative
  · left
    obtain ⟨negative, code⟩ := x
    obtain ⟨negative', code'⟩ := y
    rw [Binary.mk.injEq]
    exact ⟨hsign, Fin.ext hcode⟩
  · -- With opposite signs the two are on both sides of zero, and so they are zero.
    right
    have hzero : x.toRat = 0 := by
      cases hx : x.negative with
      | true =>
        have hy : y.negative = false := by simpa [hx] using hsign
        exact le_antisymm (toRat_nonpos hx) (h ▸ toRat_nonneg hy)
      | false =>
        have hy : y.negative = true := by simpa [hx] using hsign
        exact le_antisymm (h ▸ toRat_nonpos hy) (toRat_nonneg hx)
    have hnone := abs_toRat_mul x
    rw [hzero, abs_zero, zero_mul] at hnone
    have hx : x.code.val = 0 := units_eq_zero_iff.mp (by exact_mod_cast hnone.symm)
    exact ⟨beq_iff_eq.mpr hx, beq_iff_eq.mpr (hcode ▸ hx)⟩

lemma eq_or_isZero_of_quantity_eq (h : x.quantity = y.quantity) (hnan : y.quantity ≠ .nan) :
    x = y ∨ x.isZero = true ∧ y.isZero = true := by
  obtain hy | ⟨negative, rfl⟩ | hy := y.nan_or_infinity_or_finite
  · exact absurd (quantity_of_isNaN hy) hnan
  · rw [quantity_infinity] at h
    obtain hx | ⟨negative', rfl⟩ | hx := x.nan_or_infinity_or_finite
    · cases (quantity_of_isNaN hx).symm.trans h
    · cases (quantity_infinity negative').symm.trans h
      exact .inl rfl
    · cases (quantity_of_isFinite hx).symm.trans h
  · rw [quantity_of_isFinite hy] at h
    exact eq_or_isZero_of_toRat_eq (quantity_eq_rational_iff.mp h).2

end Binary

namespace Number

variable {m n : Number} {k : Kind} {q : ℚ}

lemma StandsFor.quantity_eq (h : m.StandsFor (.rational q)) (hq : m.kind.Represents q) :
    m.quantity = .rational q := by
  cases m with
  | int32 i =>
    obtain ⟨j, rfl⟩ := hq.elim
    have hij : i.toInt = j.toInt := h.trans (Quantity.clamp_intCast j.minValue_le_toInt j.toInt_le)
    rw [quantity, hij]
  | int64 i =>
    obtain ⟨j, rfl⟩ := hq.elim
    have hij : i.toInt = j.toInt := h.trans (Quantity.clamp_intCast j.minValue_le_toInt j.toInt_le)
    rw [quantity, hij]
  | float32 x =>
    obtain ⟨y, hy, hvalue⟩ := hq.elim
    exact Binary.quantity_eq_rational_iff.mpr (Binary.IsNearest.exact h hy hvalue)
  | float64 x =>
    obtain ⟨y, hy, hvalue⟩ := hq.elim
    exact Binary.quantity_eq_rational_iff.mpr (Binary.IsNearest.exact h hy hvalue)

/-- The low bits of an integer are congruent to it, and there is one such integer of 32 bits. -/
lemma coerce_int64_int32_iff {i : Int64} {j : Int32} :
    (int64 i).coerce .int32 = int32 j ↔ j.toInt ≡ i.toInt [ZMOD 2 ^ 32] := by
  change int32 i.toInt32 = int32 j ↔ _
  rw [int32.injEq, ← Int32.toInt_inj, Int64.toInt_toInt32]
  constructor
  · rintro h
    rw [← h]
    exact Int.bmod_emod
  · intro h
    have hj : j.toInt.bmod (2 ^ 32) = j.toInt :=
      Kind.bmod_of_bounds (k := .int32) j.minValue_le_toInt j.toInt_le
    rw [← hj, ← Int.emod_bmod, ← Int.emod_bmod (x := j.toInt)]
    exact congrArg (Int.bmod · (2 ^ 32)) h.symm

/-- A coercion to a kind that has a number for the value of a number answers that number. -/
lemma quantity_coerce (hn : n.quantity = .rational q) (hq : k.Represents q) :
    (n.coerce k).quantity = .rational q := by
  by_cases hnarrows : n.kind = .int64 ∧ k = .int32
  · obtain ⟨hkind, rfl⟩ := hnarrows
    obtain ⟨j, rfl⟩ := hq.elim
    cases n with
    | int64 i =>
      have hij : i.toInt = j.toInt := by exact_mod_cast Quantity.rational.inj hn
      rw [coerce_int64_int32_iff.mpr (show j.toInt ≡ i.toInt [ZMOD 2 ^ 32] by rw [hij])]
      rfl
    | int32 i => cases hkind
    | float32 x => cases hkind
    | float64 x => cases hkind
  · have hstands := standsFor_coerce hnarrows
    rw [hn] at hstands
    exact hstands.quantity_eq (by rwa [kind_coerce])

lemma eq_or_isZero_of_quantity_eq (hkind : m.kind = n.kind) (h : m.quantity = n.quantity)
    (hnan : n.quantity ≠ .nan) : m = n ∨ m.isZero = true ∧ n.isZero = true := by
  have hinteger {i j : Int} (h : Quantity.rational i = .rational j) : i = j := by
    exact_mod_cast Quantity.rational.inj h
  cases m <;> cases n <;> cases hkind
  · exact .inl (congrArg int32 (Int32.toInt_inj.mp (hinteger h)))
  · exact .inl (congrArg int64 (Int64.toInt_inj.mp (hinteger h)))
  · exact (Binary.eq_or_isZero_of_quantity_eq h hnan).imp_left (congrArg float32)
  · exact (Binary.eq_or_isZero_of_quantity_eq h hnan).imp_left (congrArg float64)

/-- A zero comes back from every kind, and only the integers take its sign away. -/
lemma IsZero.coerce_coerce (h : n.IsZero) (k : Kind) :
    (n.coerce k).coerce n.kind = n ∨
      k.isIntegral = true ∧ (n.coerce k).coerce n.kind = n.kind.zero := by
  cases h with
  | int32 => cases k <;> exact .inl (by decide +kernel)
  | int64 => cases k <;> exact .inl (by decide +kernel)
  | float32 negative =>
    cases k with
    | int32 | int64 => exact .inr ⟨rfl, by cases negative <;> decide +kernel⟩
    | float32 | float64 => exact .inl (by cases negative <;> decide +kernel)
  | float64 negative =>
    cases k with
    | int32 | int64 => exact .inr ⟨rfl, by cases negative <;> decide +kernel⟩
    | float32 | float64 => exact .inl (by cases negative <;> decide +kernel)

/-- A number whose value a kind has a number for comes back from that kind. -/
lemma coerce_coerce_of_represents (hn : n.quantity = .rational q) (hq : k.Represents q) :
    (n.coerce k).coerce n.kind = n ∨
      k.isIntegral = true ∧ n.IsZero ∧ (n.coerce k).coerce n.kind = n.kind.zero := by
  have hback : ((n.coerce k).coerce n.kind).quantity = .rational q :=
    quantity_coerce (quantity_coerce hn hq) ⟨n, rfl, hn⟩
  have hnan : n.quantity ≠ .nan := by simp [hn]
  obtain heq | ⟨-, hzero⟩ :=
    eq_or_isZero_of_quantity_eq (kind_coerce _ _) (hback.trans hn.symm) hnan
  · exact .inl heq
  · have hzero' := isZero_iff.mp hzero
    exact (hzero'.coerce_coerce k).imp_right fun ⟨hk, hback⟩ => ⟨hk, hzero', hback⟩

/-! ### Survival -/

/-- The number keeps its value in the kind and comes back from it as it was. -/
def Survives (n : Number) (k : Kind) : Prop :=
  (n.coerce k).quantity = n.quantity ∧ (n.coerce k).coerce n.kind = n

lemma survives_int64 (i : Int32) : (int32 i).Survives .int64 := by
  have hq : Kind.int64.Represents i.toInt :=
    ⟨int64 i.toInt64, rfl, by rw [quantity, i.toInt_toInt64]⟩
  refine ⟨quantity_coerce rfl hq, ?_⟩
  obtain heq | ⟨-, hzero, hback⟩ := coerce_coerce_of_represents (n := int32 i) rfl hq
  · exact heq
  · cases hzero
    exact hback

lemma survives_of_float64 (hn : n.quantity = .rational q) (hq : Kind.float64.Represents q) :
    n.Survives .float64 := by
  refine ⟨(quantity_coerce hn hq).trans hn.symm, ?_⟩
  obtain heq | ⟨hk, -⟩ := coerce_coerce_of_represents hn hq
  · exact heq
  · cases hk

/-- Doubles have room for all whole multiples of `2 ^ (s - 1074)` with 53 bits. -/
lemma float64_represents {m s : Nat} (hm : m < 2 ^ 53) (hs : s ≤ 2045)
    (h : |q| * 2 ^ 1074 = m * 2 ^ s) : Kind.float64.Represents q := by
  have hhidden : Format.double.hidden = 2 ^ 52 := rfl
  have hinfinity : Format.double.infinity = 2047 * 2 ^ 52 := rfl
  have hscale : Format.double.scale = 1074 := rfl
  obtain ⟨x, hfinite, hsign, hunits⟩ := Binary.exists_isFinite_units .double (decide (q < 0))
    (m := m) (s := s) (by omega) (by rw [hhidden, hinfinity]; omega)
  have habs : |x.toRat| = |q| := by
    have hmagnitude := x.abs_toRat_mul
    rw [← Binary.units, hunits, hscale] at hmagnitude
    push_cast at hmagnitude
    exact mul_right_cancel₀ (by positivity) (hmagnitude.trans h.symm)
  refine ⟨float64 x, rfl, Binary.quantity_eq_rational_iff.mpr ⟨hfinite, ?_⟩⟩
  rcases lt_or_ge q 0 with hneg | hnonneg
  · rw [decide_eq_true hneg] at hsign
    rw [abs_of_nonpos (Binary.toRat_nonpos hsign), abs_of_neg hneg] at habs
    exact neg_inj.mp habs
  · rw [decide_eq_false hnonneg.not_gt] at hsign
    rwa [abs_of_nonneg (Binary.toRat_nonneg hsign), abs_of_nonneg hnonneg] at habs

lemma float64_represents_int32 (i : Int32) : Kind.float64.Represents i.toInt := by
  have hlower := i.le_toInt
  have hupper := i.toInt_lt
  have habs : |(i.toInt : ℚ)| * 2 ^ 1074 = i.toInt.natAbs * 2 ^ 1074 := by
    rw [Nat.cast_natAbs, Int.cast_abs]
  exact float64_represents (by omega) (by decide) habs

lemma float64_represents_single {x : Single} (h : x.isFinite = true) :
    Kind.float64.Represents x.toRat := by
  have hhidden : Format.single.hidden = 2 ^ 23 := rfl
  have hinfinity : Format.single.infinity = 255 * 2 ^ 23 := rfl
  have hscale : Format.single.scale = 149 := rfl
  have hlt : x.code.val < Format.single.infinity := of_decide_eq_true h
  obtain ⟨s, m, hcode, hs, hm⟩ := Format.single.exists_significand x.code
  have hmagnitude : |x.toRat| * 2 ^ 149 = m * 2 ^ s := by
    have hunits := x.abs_toRat_mul
    rw [hcode, Format.units_eq hs hm.le, hscale] at hunits
    exact_mod_cast hunits
  have habs : |x.toRat| * 2 ^ 1074 = m * 2 ^ (s + 925) := by
    rw [show 1074 = 149 + 925 by rfl, pow_add, pow_add, ← mul_assoc, hmagnitude, mul_assoc]
  rw [hhidden] at hcode hm
  rw [hinfinity] at hlt
  exact float64_represents (by omega) (by omega) habs

/-- Coercion is exact where it can be, and has one defined result where it cannot. To a kind that
has a number for the value of a number it answers that number, which leads back to the first one,
but for the sign of a zero that went through an integer. Otherwise, integers narrowed to 32 bits
keep what they are modulo `2 ^ 32`, and every other number gives way to the one that stands for its
quantity: among integers that without its fraction, clamped, and among floating-point numbers the
nearest one or an infinity. -/
theorem coerce_exact_or_nearest :
    (∀ (n : Number) (k : Kind),
      (n.coerce k).kind = k ∧
      (∀ q, n.quantity = .rational q → k.Represents q →
        (n.coerce k).quantity = .rational q ∧
        ((n.coerce k).coerce n.kind = n ∨
          k.isIntegral = true ∧ n.IsZero ∧ (n.coerce k).coerce n.kind = n.kind.zero)) ∧
      (¬ (n.kind = .int64 ∧ k = .int32) → (n.coerce k).StandsFor n.quantity)) ∧
    (∀ (i : Int64) (j : Int32),
      (int64 i).coerce .int32 = int32 j ↔ j.toInt ≡ i.toInt [ZMOD 2 ^ 32]) ∧
    (∀ i : Int32, (int32 i).Survives .int64 ∧ (int32 i).Survives .float64) ∧
    (∀ x : Single, x.isFinite = true → (float32 x).Survives .float64) ∧
    ∀ (x : Double) (k : Kind), ofDouble x k = (float64 x).coerce k := by
  refine ⟨fun n k => ⟨kind_coerce n k, fun q hn hq => ?_, standsFor_coerce⟩,
    fun i j => coerce_int64_int32_iff, fun i => ⟨survives_int64 i, ?_⟩, fun x h => ?_,
    fun x k => rfl⟩
  · exact ⟨quantity_coerce hn hq, coerce_coerce_of_represents hn hq⟩
  · exact survives_of_float64 rfl (float64_represents_int32 i)
  · exact survives_of_float64 (Binary.quantity_of_isFinite h) (float64_represents_single h)

/-- An integer halfway between two numbers of 32 bits, the least integer that can be narrowed, and
the least positive number of 32 bits. -/
theorem coerce_exact_or_nearest_halfway :
    let halfway : Number := .int64 16777217
    let least : Number := .int64 (-2147483648)
    let tiny : Single := .ofBits 1
    ¬ (halfway.kind = .int64 ∧ Kind.float32 = .int32) ∧
    (halfway.coerce .float32).StandsFor halfway.quantity ∧
    least.quantity = .rational (-2147483648) ∧ Kind.int32.Represents (-2147483648) ∧
    (least.coerce .int32).quantity = .rational (-2147483648) ∧
    tiny.isFinite = true ∧ (float32 tiny).Survives .float64 := by
  intro halfway least tiny
  obtain ⟨hcoerce, -, -, hsingle, -⟩ := coerce_exact_or_nearest
  have hother : ¬ (halfway.kind = .int64 ∧ Kind.float32 = .int32) := by decide
  have hleast : least.quantity = .rational (-2147483648) := by
    rw [quantity, show Int64.toInt (-2147483648) = -2147483648 by rfl]
    norm_num
  have hrepresents : Kind.int32.Represents (-2147483648) := by
    refine ⟨int32 (-2147483648), rfl, ?_⟩
    rw [quantity, show Int32.toInt (-2147483648) = -2147483648 by rfl]
    norm_num
  have hfinite : tiny.isFinite = true := by decide
  exact ⟨hother, (hcoerce halfway .float32).2.2 hother, hleast, hrepresents,
    ((hcoerce least .int32).2.1 _ hleast hrepresents).1, hfinite, hsingle tiny hfinite⟩

end Number

end NumericTrees
