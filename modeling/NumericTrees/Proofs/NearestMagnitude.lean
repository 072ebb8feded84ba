import Mathlib.Algebra.Order.Ring.Abs
import Mathlib.Order.Monotone.Basic
import Mathlib.Tactic.Linarith
import NumericTrees.Proofs.ShortestValue

/-!
# The nearest magnitude

Rounding to nearest described by distances: no magnitude of the format is nearer to a number than
the one that it rounds to, and of two equally near ones it is the one with the even code. Beyond the
largest finite magnitude the power of two that follows it stands for infinity. For finite codes this
says the same as lying between the middles of a code and its neighbours.
-/

namespace NumericTrees

lemma abs_sub_le_iff_of_lt {a b q : ℚ} (h : a < b) : |a - q| ≤ |b - q| ↔ 2 * q ≤ a + b := by
  rw [← sq_le_sq]
  constructor
  · intro hle
    nlinarith
  · intro hle
    nlinarith

lemma abs_sub_lt_iff_of_lt {a b q : ℚ} (h : a < b) : |a - q| < |b - q| ↔ 2 * q < a + b := by
  rw [← sq_lt_sq]
  constructor
  · intro hlt
    nlinarith
  · intro hlt
    nlinarith

namespace Format

variable {f : Format} {q : ℚ} {code code' other : Nat}

/-- The code whose magnitude is nearest to `q` units, the even one of two. -/
structure NearestTo (f : Format) (q : ℚ) (code : Nat) : Prop where
  le_infinity : code ≤ f.infinity
  nearest : ∀ other ≤ f.infinity, |(f.units code : ℚ) - q| ≤ |(f.units other : ℚ) - q|
  even : ∀ other ≤ f.infinity, other ≠ code →
    |(f.units other : ℚ) - q| = |(f.units code : ℚ) - q| → code % 2 = 0

lemma units_strictMono (f : Format) : StrictMono f.units :=
  strictMono_nat_of_lt_succ f.units_lt_succ

lemma units_lt_units (h : code < other) : (f.units code : ℚ) < f.units other := by
  exact_mod_cast f.units_strictMono h

lemma units_le_units (h : code ≤ other) : (f.units code : ℚ) ≤ f.units other := by
  exact_mod_cast f.units_strictMono.monotone h

lemma NearestTo.le_of_lt (h : f.NearestTo q code) (hlt : code < other)
    (hother : other ≤ f.infinity) :
    2 * q ≤ f.units code + f.units other ∧
      (code % 2 = 1 → 2 * q < f.units code + f.units other) := by
  have hunits := f.units_lt_units hlt
  refine ⟨(abs_sub_le_iff_of_lt hunits).mp (h.nearest other hother), fun hodd => ?_⟩
  rw [← abs_sub_lt_iff_of_lt hunits]
  refine lt_of_le_of_ne (h.nearest other hother) fun htie => ?_
  have heven := h.even other hother hlt.ne' htie.symm
  omega

lemma NearestTo.le_of_gt (h : f.NearestTo q code) (hlt : other < code) :
    (f.units other + f.units code : ℚ) ≤ 2 * q ∧
      (code % 2 = 1 → (f.units other + f.units code : ℚ) < 2 * q) := by
  have hunits := f.units_lt_units hlt
  have hother := hlt.le.trans h.le_infinity
  refine ⟨not_lt.mp fun hbelow => ?_, fun hodd => not_le.mp fun hbelow => ?_⟩
  · exact absurd (h.nearest other hother) (not_le.mpr ((abs_sub_lt_iff_of_lt hunits).mpr hbelow))
  · have hle := (abs_sub_le_iff_of_lt hunits).mpr hbelow
    have heven := h.even other hother hlt.ne (le_antisymm hle (h.nearest other hother))
    omega

/-- There is one nearest magnitude: of two, neither would have an even code next to it. -/
lemma NearestTo.unique (h : f.NearestTo q code) (h' : f.NearestTo q code') : code = code' := by
  by_contra hne
  wlog hlt : code < code' generalizing code code'
  · exact this h' h (Ne.symm hne) (by omega)
  have hsum : 2 * q = f.units code + f.units code' :=
    le_antisymm (h.le_of_lt hlt h'.le_infinity).1 (h'.le_of_gt hlt).1
  have heven : code % 2 = 0 := by
    by_contra hodd
    have hstrict := (h.le_of_lt hlt h'.le_infinity).2 (by omega)
    linarith
  have heven' : code' % 2 = 0 := by
    by_contra hodd
    have hstrict := (h'.le_of_gt hlt).2 (by omega)
    linarith
  -- So there is a code between the two, and its magnitude is nearer than theirs.
  have hbetween : code + 1 < code' := by omega
  have hnext := (h.le_of_lt code.lt_succ_self (hbetween.le.trans h'.le_infinity)).1
  have hunits := f.units_lt_units hbetween
  linarith

lemma NearestTo.rounds (h : f.NearestTo q code) (hfinite : code < f.infinity) (hq : 0 ≤ q) :
    f.Rounds q code := by
  have habove := h.le_of_lt code.lt_succ_self hfinite
  rcases Nat.eq_zero_or_pos code with rfl | hpos
  · have hzero : ((f.units (0 - 1) + f.units 0 : ℚ)) = 0 := by simp
    exact ⟨by linarith, habove.1, fun hodd => by omega⟩
  · have hbelow := h.le_of_gt (Nat.sub_one_lt_of_lt hpos)
    exact ⟨hbelow.1, habove.1, fun hodd => ⟨hbelow.2 hodd, habove.2 hodd⟩⟩

lemma Rounds.nearestTo (h : f.Rounds q code) (hfinite : code < f.infinity) :
    f.NearestTo q code := by
  obtain ⟨hlower, hupper, hodd⟩ := h
  refine ⟨hfinite.le, fun other _ => ?_, fun other _ hne htie => ?_⟩
  · rcases Nat.lt_trichotomy other code with hlt | rfl | hgt
    · have hunits := f.units_lt_units hlt
      have hprev := f.units_le_units (Nat.le_sub_one_of_lt hlt)
      rw [← not_lt, abs_sub_lt_iff_of_lt hunits]
      linarith
    · exact le_rfl
    · have hnext := f.units_le_units (Nat.succ_le_of_lt hgt)
      rw [abs_sub_le_iff_of_lt (f.units_lt_units hgt)]
      linarith
  · by_contra hcode
    obtain ⟨hlower, hupper⟩ := hodd (by omega)
    rcases Nat.lt_or_gt_of_ne hne with hlt | hgt
    · have hprev := f.units_le_units (Nat.le_sub_one_of_lt hlt)
      have hle := (abs_sub_le_iff_of_lt (f.units_lt_units hlt)).mp htie.le
      linarith
    · have hnext := f.units_le_units (Nat.succ_le_of_lt hgt)
      have hlt := (abs_sub_lt_iff_of_lt (q := q) (f.units_lt_units hgt)).mpr (by linarith)
      exact hlt.ne htie.symm

end Format

end NumericTrees
