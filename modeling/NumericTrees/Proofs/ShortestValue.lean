import Mathlib.Algebra.Order.Field.Power
import NumericTrees.Decimal.Shortest
import NumericTrees.Proofs.DecimalText
import NumericTrees.Proofs.NearestCode

/-!
# The shortest decimal rounds back

The search for the shortest decimal only stops at points of the rounding interval of a number. So
the decimal that it answers rounds back to the number, in the number's own format, and numbers with
one text have one code.
-/

namespace NumericTrees

namespace RoundingInterval

variable {i : RoundingInterval} {k point : Nat}

lemma contains_iff : i.contains point = true ↔
    i.lower ≤ point ∧ point ≤ i.upper ∧
      (i.closed = false → i.lower < point ∧ point < i.upper) := by
  unfold contains
  cases i.closed with
  | false =>
    simp only [Bool.and_eq_true, decide_eq_true_eq, Bool.false_eq_true, if_false, true_imp_iff]
    omega
  | true => simp

lemma contains_of_gridPoint? (h : i.gridPoint? k = some point) :
    i.contains (point * (2 * 10 ^ k)) = true := by
  unfold gridPoint? at h
  dsimp only at h
  split at h <;> cases h
  · split <;> assumption
  · assumption
  · assumption

/-- The search ends at a point of the interval. -/
lemma contains_coarsest (hvalue : i.contains i.value = true) (heven : i.value % 2 = 0) (k : Nat) :
    i.contains ((i.coarsest k).1 * (2 * 10 ^ (i.coarsest k).2)) = true := by
  induction k with
  | zero =>
    have hhalves : i.value / 2 * 2 = i.value := by omega
    simpa [coarsest, hhalves] using hvalue
  | succ k ih =>
    unfold coarsest
    split
    · exact contains_of_gridPoint? ‹_›
    · exact ih

end RoundingInterval

namespace Format

variable {f : Format} {code : Nat}

lemma units_lt_succ (f : Format) (code : Nat) : f.units code < f.units (code + 1) := by
  obtain ⟨s, m, rfl, hs, hm⟩ := f.exists_significand code
  rw [units_succ hs hm, units_eq hs (by omega)]
  exact Nat.mul_lt_mul_of_pos_right (by omega) (Nat.two_pow_pos s)

end Format

namespace Binary

variable {f : Format} {x y : Binary f} {num den : Nat}

/-- The interval of a number holds, in halves of a power of ten, the numbers that round to it. -/
lemma contains_iff_rounds {point : Nat} : x.roundingInterval.contains point = true ↔
    f.Rounds ((point : ℚ) / 2 / 5 ^ f.scale) x.code := by
  have hpos : (0 : ℚ) < 5 ^ f.scale := by positivity
  have hdouble : 2 * ((point : ℚ) / 2 / 5 ^ f.scale) = point / 5 ^ f.scale := by ring
  have hopen : x.roundingInterval.closed = false ↔ x.code.val % 2 = 1 := by
    simp [roundingInterval]
  rw [RoundingInterval.contains_iff, hopen]
  constructor
  · rintro ⟨hlower, hupper, hodd⟩
    constructor <;> rw [hdouble]
    · rw [le_div_iff₀ hpos]
      exact_mod_cast hlower
    · rw [div_le_iff₀ hpos]
      exact_mod_cast hupper
    · rw [lt_div_iff₀ hpos, div_lt_iff₀ hpos]
      exact_mod_cast hodd
  · rintro ⟨hlower, hupper, hodd⟩
    rw [hdouble] at hlower hupper hodd
    rw [le_div_iff₀ hpos] at hlower
    rw [div_le_iff₀ hpos] at hupper
    rw [lt_div_iff₀ hpos, div_lt_iff₀ hpos] at hodd
    exact ⟨by exact_mod_cast hlower, by exact_mod_cast hupper, by exact_mod_cast hodd⟩

lemma contains_value (hzero : x.isZero = false) :
    x.roundingInterval.contains x.roundingInterval.value = true := by
  have hcode : x.code.val - 1 + 1 = x.code.val := by
    have hne : x.code.val ≠ 0 := by simpa [isZero] using hzero
    omega
  have hbelow := f.units_lt_succ (x.code.val - 1)
  have habove := f.units_lt_succ x.code.val
  rw [hcode] at hbelow
  have hpos : 0 < 5 ^ f.scale := Nat.pow_pos (by decide)
  have hlower : x.roundingInterval.lower < x.roundingInterval.value :=
    Nat.mul_lt_mul_of_pos_right (by omega) hpos
  have hupper : x.roundingInterval.value < x.roundingInterval.upper :=
    Nat.mul_lt_mul_of_pos_right (by omega) hpos
  exact RoundingInterval.contains_iff.mpr ⟨hlower.le, hupper.le, fun _ => ⟨hlower, hupper⟩⟩

lemma exists_shortest (hzero : x.isZero = false) :
    ∃ point k : Nat, x.shortest = ⟨point, k - (f.scale : Int)⟩ ∧
      x.roundingInterval.contains (point * (2 * 10 ^ k)) = true := by
  have heven : x.roundingInterval.value % 2 = 0 := by simp [roundingInterval, Nat.mul_assoc]
  exact ⟨_, _, by simp [shortest, hzero],
    RoundingInterval.contains_coarsest (contains_value hzero) heven x.roundingInterval.ceiling⟩

lemma value_mul_two_pow (point k scale : Nat) :
    Decimal.value ⟨point, k - (scale : Int)⟩ * 2 ^ scale =
      ((point * (2 * 10 ^ k) : Nat) : ℚ) / 2 / 5 ^ scale := by
  have hten : (10 : ℚ) ^ scale = 5 ^ scale * 2 ^ scale := by
    rw [← mul_pow]
    norm_num
  rw [Decimal.value, zpow_sub₀ (by norm_num), zpow_natCast, zpow_natCast, hten]
  push_cast
  field_simp

/-- The shortest decimal lies where the rounding to the number looks. -/
theorem shortest_rounds (x : Binary f) : f.Rounds (x.shortest.value * 2 ^ f.scale) x.code := by
  by_cases hzero : x.isZero = true
  · have hcode : x.code.val = 0 := by simpa [isZero] using hzero
    have hvalue : x.shortest.value = 0 := by simp [shortest, hzero, Decimal.value]
    rw [hvalue, zero_mul, hcode]
    constructor <;> simp
  · obtain ⟨point, k, hshortest, hcontains⟩ := exists_shortest (Bool.not_eq_true _ ▸ hzero)
    rw [hshortest, value_mul_two_pow]
    exact contains_iff_rounds.mp hcontains

/-- Read as a number and rounded to nearest, the shortest decimal of a finite number gives back the
code of the number. -/
theorem nearest_shortest (hfinite : x.isFinite = true) (hden : 0 < den)
    (h : (num : ℚ) / den = x.shortest.value * 2 ^ f.scale) : f.nearest num den = x.code := by
  have hrounds := x.shortest_rounds
  rw [← h] at hrounds
  exact hrounds.nearest_eq hden (of_decide_eq_true hfinite)

lemma code_eq_of_value_eq (hx : x.isFinite = true) (hy : y.isFinite = true)
    (h : x.shortest.value = y.shortest.value) : x.code = y.code := by
  -- Rounding takes a quotient, and any quotient that is the common value will do.
  obtain ⟨q, hq⟩ : ∃ q, q = x.shortest.value * 2 ^ f.scale := ⟨_, rfl⟩
  have hnonneg : 0 ≤ q := by
    rw [hq, Decimal.value]
    positivity
  have hnum : ((q.num.toNat : Int) : ℚ) = q.num := by
    rw [Int.toNat_of_nonneg (Rat.num_nonneg.mpr hnonneg)]
  have hquotient : (q.num.toNat : ℚ) / q.den = q := by
    rw [← Int.cast_natCast, hnum, Rat.num_div_den]
  have hfirst := nearest_shortest hx q.den_pos (hquotient.trans hq)
  have hsecond := nearest_shortest hy q.den_pos (hquotient.trans (by rw [hq, h]))
  exact Fin.ext (hfirst.symm.trans hsecond)

end Binary

end NumericTrees
