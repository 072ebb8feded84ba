import Mathlib.Algebra.Order.Field.Basic
import NumericTrees.Proofs.FloatTexts
import NumericTrees.Proofs.Numerals
import NumericTrees.Value

/-!
# Fewest digits

The search for the shortest decimal stops at the coarsest grid of powers of ten that has a point in
the rounding interval. Therefore no decimal that rounds to a number is a whole number of a larger
power of ten, and none has fewer significant digits: where one had, the next power of ten would lie
between it and the shortest decimal, and powers of ten have one digit on every grid.
-/

namespace NumericTrees

namespace RoundingInterval

variable {i : RoundingInterval} {k point : Nat}

lemma contains_of_between {a b c : Nat} (ha : i.contains a = true) (hc : i.contains c = true)
    (hab : a ≤ b) (hbc : b ≤ c) : i.contains b = true := by
  obtain ⟨hlower, -, hopen⟩ := contains_iff.mp ha
  obtain ⟨-, hupper, hopen'⟩ := contains_iff.mp hc
  exact contains_iff.mpr ⟨hlower.trans hab, hbc.trans hupper, fun hclosed =>
    ⟨(hopen hclosed).1.trans_le hab, hbc.trans_lt (hopen' hclosed).2⟩⟩

/-- A grid that meets the interval meets it next to the value. -/
lemma gridPoint?_ne_none (hvalue : i.contains i.value = true)
    (h : i.contains (point * (2 * 10 ^ k)) = true) : i.gridPoint? k ≠ none := by
  have hstep : 0 < 2 * 10 ^ k := Nat.mul_pos (by decide) (Nat.pow_pos (by decide))
  -- One of the two neighbours of the value lies between it and the point.
  have hneighbour : i.contains (i.value / (2 * 10 ^ k) * (2 * 10 ^ k)) = true ∨
      i.contains ((i.value / (2 * 10 ^ k) + 1) * (2 * 10 ^ k)) = true := by
    rcases Nat.lt_or_ge i.value (point * (2 * 10 ^ k)) with habove | hbelow
    · right
      have hpoint : i.value / (2 * 10 ^ k) + 1 ≤ point := (Nat.div_lt_iff_lt_mul hstep).mpr habove
      exact contains_of_between hvalue h (Nat.lt_mul_of_div_lt (Nat.lt_succ_self _) hstep).le
        (Nat.mul_le_mul_right _ hpoint)
    · left
      have hpoint : point ≤ i.value / (2 * 10 ^ k) := (Nat.le_div_iff_mul_le hstep).mpr hbelow
      exact contains_of_between h hvalue (Nat.mul_le_mul_right _ hpoint) (Nat.div_mul_le_self _ _)
  intro hnone
  unfold gridPoint? at hnone
  dsimp only at hnone
  split at hnone <;> cases hnone
  rename_i hbelow habove
  rcases hneighbour with hin | hin
  · exact Bool.false_ne_true (hbelow.symm.trans hin)
  · exact Bool.false_ne_true (habove.symm.trans hin)

lemma le_coarsest (hvalue : i.contains i.value = true)
    (h : i.contains (point * (2 * 10 ^ k)) = true) {limit : Nat} (hle : k ≤ limit) :
    k ≤ (i.coarsest limit).2 := by
  induction limit with
  | zero => simpa [coarsest] using hle
  | succ limit ih =>
    unfold coarsest
    split
    · exact hle
    · rename_i hnone
      refine ih (Nat.le_of_lt_succ (lt_of_le_of_ne hle ?_))
      rintro rfl
      exact gridPoint?_ne_none hvalue h hnone

/-- No grid beyond the ceiling meets the interval in a positive point. -/
lemma le_ceiling (hpos : 0 < point) (h : i.contains (point * (2 * 10 ^ k)) = true) :
    k ≤ i.ceiling := by
  obtain ⟨-, hupper, -⟩ := contains_iff.mp h
  have hlog : i.upper < 2 ^ (i.upper.log2 + 1) := Nat.lt_log2_self
  -- The logarithm is one to the base two, and eight is the power of two below ten.
  have hpow : 2 ^ (3 * k) < 2 ^ (i.upper.log2 + 1) := by
    calc 2 ^ (3 * k) = 8 ^ k := by rw [Nat.pow_mul]
      _ ≤ 10 ^ k := Nat.pow_le_pow_left (by decide) k
      _ ≤ point * (2 * 10 ^ k) := by
        rw [← Nat.mul_assoc]
        exact Nat.le_mul_of_pos_left _ (Nat.mul_pos hpos (by decide))
      _ ≤ i.upper := hupper
      _ < 2 ^ (i.upper.log2 + 1) := hlog
  have hlt := (Nat.pow_lt_pow_iff_right (by decide)).mp hpow
  unfold ceiling
  omega

end RoundingInterval

namespace Format

variable {f : Format} {q r : ℚ} {code : Nat}

lemma Rounds.of_between {p : ℚ} (hp : f.Rounds p code) (hr : f.Rounds r code) (hpq : p ≤ q)
    (hqr : q ≤ r) : f.Rounds q code := by
  refine ⟨by linarith [hp.lower], by linarith [hr.upper], fun hodd => ?_⟩
  have hlower := (hp.odd hodd).1
  have hupper := (hr.odd hodd).2
  exact ⟨by linarith, by linarith⟩

end Format

namespace Binary

variable {f : Format} {x : Binary f} {d : Decimal}

lemma digits_pos_of_rounds (hzero : x.isZero = false)
    (h : f.Rounds (d.value * 2 ^ f.scale) x.code) : 0 < d.digits := by
  by_contra hnot
  have hdigits : d.digits = 0 := by omega
  have hcode : 0 < x.code.val := Nat.pos_of_ne_zero (by simpa [isZero] using hzero)
  have hvalue : d.value = 0 := by simp [Decimal.value, hdigits]
  have hunits : (0 : ℚ) < f.units x.code := by simpa using f.units_lt_units hcode
  have hprevious : (0 : ℚ) ≤ f.units (x.code - 1) := Nat.cast_nonneg _
  have hlower := h.lower
  rw [hvalue] at hlower
  linarith

/-- No decimal on a coarser grid than the shortest one rounds to the number. -/
lemma exponent_le_shortest (hzero : x.isZero = false) (hpos : 0 < d.digits)
    (h : f.Rounds (d.value * 2 ^ f.scale) x.code) : d.exponent ≤ x.shortest.exponent := by
  have hshortest : x.shortest.exponent =
      (x.roundingInterval.coarsest x.roundingInterval.ceiling).2 - (f.scale : Int) := by
    simp [shortest, hzero]
  rw [hshortest]
  -- The search knows no grid that is finer than the first one.
  by_cases hfine : d.exponent + f.scale < 0
  · omega
  obtain ⟨k, hk⟩ := Int.eq_ofNat_of_zero_le (Int.not_lt.mp hfine)
  have hexponent : d.exponent = k - (f.scale : Int) := by omega
  have hcontains : x.roundingInterval.contains (d.digits * (2 * 10 ^ k)) = true := by
    rw [contains_iff_rounds, ← value_mul_two_pow, ← hexponent]
    exact h
  have hle := RoundingInterval.le_coarsest (contains_value hzero) hcontains
    (RoundingInterval.le_ceiling hpos hcontains)
  omega

/-- A decimal that rounds to a number has no fewer digits than the shortest one. -/
theorem shortest_digits_lt {places : Nat} (h : f.Rounds (d.value * 2 ^ f.scale) x.code)
    (hlt : d.digits < 10 ^ places) : x.shortest.digits < 10 ^ places := by
  cases hzero : x.isZero with
  | true => simp [shortest, hzero]
  | false =>
    by_contra hge
    have hpos := digits_pos_of_rounds hzero h
    have hexponent := exponent_le_shortest hzero hpos h
    -- A power of ten comes between the two decimals, and its exponent is at most the shortest one.
    let power : Decimal := ⟨1, places + x.shortest.exponent⟩
    have hpower : power.value = 10 ^ places * 10 ^ x.shortest.exponent := by
      simp [power, Decimal.value, zpow_add₀]
    have hbelow : d.value ≤ power.value := by
      rw [hpower, Decimal.value]
      gcongr
      · exact_mod_cast hlt.le
      · norm_num
    have habove : power.value ≤ x.shortest.value := by
      rw [hpower, Decimal.value]
      gcongr
      exact_mod_cast Nat.le_of_not_lt hge
    have hrounds : f.Rounds (power.value * 2 ^ f.scale) x.code :=
      h.of_between x.shortest_rounds (by gcongr) (by gcongr)
    have hle := exponent_le_shortest hzero (d := power) Nat.one_pos hrounds
    have hplaces : places = 0 := by
      simp only [power] at hle
      omega
    rw [hplaces] at hlt
    omega

end Binary

/-! ### Texts of finite numbers -/

namespace Numeral

variable {f : Format} {n : Numeral} {x y : Binary f}

/-- Rounded to nearest, ties to even, the numeral gives the number; a zero keeps its sign. -/
structure RoundsTo (n : Numeral) (x : Binary f) : Prop where
  negative_eq : n.negative = x.negative
  nearest : f.NearestTo (n.magnitude * 2 ^ f.scale) x.code

lemma RoundsTo.unique (hx : n.RoundsTo x) (hy : n.RoundsTo y) : x = y := by
  have hcode := Fin.ext (hx.nearest.unique hy.nearest)
  have hsign := hx.negative_eq.symm.trans hy.negative_eq
  obtain ⟨negative, code⟩ := x
  obtain ⟨negative', code'⟩ := y
  rw [Binary.mk.injEq]
  exact ⟨hsign, hcode⟩

lemma RoundsTo.rounds (h : n.RoundsTo x) (hfinite : x.isFinite = true) :
    f.Rounds (n.magnitude * 2 ^ f.scale) x.code := by
  refine h.nearest.rounds (of_decide_eq_true hfinite) ?_
  rw [magnitude]
  positivity

/-- The numeral is the text of the number apart from a suffix. It rounds to that number alone, and
no numeral that does has fewer significant digits. -/
structure Denotes (n : Numeral) (x : Binary f) (suffix text : List Char) : Prop where
  text_eq : text = n.chars ++ suffix
  negative_eq : n.negative = x.negative
  rounds : ∀ y : Binary f, n.RoundsTo y ↔ y = x
  fewest : ∀ m : Numeral, m.RoundsTo x → n.significant ≤ m.significant

end Numeral

namespace Binary

variable {f : Format} {x : Binary f}

lemma roundsTo_numeral (hfinite : x.isFinite = true) :
    (x.shortest.numeral x.negative).RoundsTo x := by
  refine ⟨rfl, ?_⟩
  rw [Decimal.magnitude_numeral]
  exact x.shortest_rounds.nearestTo (of_decide_eq_true hfinite)

lemma significant_numeral_le (hfinite : x.isFinite = true) {m : Numeral} (h : m.RoundsTo x) :
    (x.shortest.numeral x.negative).significant ≤ m.significant := by
  obtain ⟨d, hvalue, hdigits⟩ := m.exists_decimal
  have hrounds := h.rounds hfinite
  rw [hvalue] at hrounds
  exact Decimal.significant_numeral_le x.negative (shortest_digits_lt hrounds hdigits)

theorem exists_numeral (suffix : List Char) (hfinite : x.isFinite = true) :
    ∃ n : Numeral, n.Denotes x suffix (x.chars suffix) := by
  have hrounds := roundsTo_numeral hfinite
  refine ⟨x.shortest.numeral x.negative, ?_, rfl, fun y => ⟨fun hy => hy.unique hrounds, ?_⟩,
    fun m hm => significant_numeral_le hfinite hm⟩
  · rw [chars_of_finite suffix hfinite, Decimal.chars_numeral, List.append_assoc]
  · rintro rfl
    exact hrounds

end Binary

/-- The texts of finite floating-point numbers read back exactly. Each is a numeral, with a minus
sign for a set sign bit and without an exponent, and an `f` behind it for 32 bits; of all numbers of
the same width the numeral rounds to the printed one alone, and no numeral of fewer significant
digits does. -/
theorem finite_texts_read_back :
    (∀ x : Single, x.isFinite = true →
      ∃ n : Numeral, n.Denotes x ['f'] (Value.number (.float32 x)).text.toList) ∧
    (∀ x : Double, x.isFinite = true →
      ∃ n : Numeral, n.Denotes x [] (Value.number (.float64 x)).text.toList) := by
  constructor
  · intro x hfinite
    rw [Value.text, String.toList_ofList, Value.chars, Number.chars_float32]
    exact Binary.exists_numeral ['f'] hfinite
  · intro x hfinite
    rw [Value.text, String.toList_ofList, Value.chars, Number.chars_float64]
    exact Binary.exists_numeral [] hfinite

/-- The least normal number of 32 bits, whose neighbours are at different distances, and a number of
64 bits that is a power of ten but not of two. -/
theorem finite_texts_read_back_powers :
    ∃ m n : Numeral,
      m.Denotes (Binary.ofBits 0x00800000 : Single) ['f']
        "0.000000000000000000000000000000000000011754944f".toList ∧
      n.Denotes (Binary.ofBits 0x4480f0cf064dd592 : Double) []
        "10000000000000000000000.".toList := by
  have hsingle : (Value.number (.float32 (.ofBits 0x00800000))).text =
      "0.000000000000000000000000000000000000011754944f" := by decide +kernel
  have hdouble : (Value.number (.float64 (.ofBits 0x4480f0cf064dd592))).text =
      "10000000000000000000000." := by decide +kernel
  obtain ⟨m, hm⟩ := finite_texts_read_back.1 (.ofBits 0x00800000) (by decide +kernel)
  obtain ⟨n, hn⟩ := finite_texts_read_back.2 (.ofBits 0x4480f0cf064dd592) (by decide +kernel)
  exact ⟨m, n, hsingle ▸ hm, hdouble ▸ hn⟩

end NumericTrees
