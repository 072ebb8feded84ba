import Mathlib.Algebra.Order.Field.Rat
import Mathlib.Data.Nat.Cast.Order.Basic
import Mathlib.Tactic.Lemma
import Mathlib.Tactic.Linarith
import Mathlib.Tactic.NormNum
import Mathlib.Tactic.Ring
import NumericTrees.Binary.Rounding

/-!
# The numbers that round to a code

The codes of a format run through its magnitudes in steps of `2 ^ s` units, where `s` grows by one
whenever the significand has run from `hidden` to twice that. Every quotient between the middles of
a code and its two neighbours rounds to the code, the middles themselves when the code is even.
-/

namespace NumericTrees

lemma roundHalfEven_eq {num den m : Nat} (hden : 0 < den) (hlower : 2 * (m * den) ≤ 2 * num + den)
    (hupper : 2 * num ≤ 2 * (m * den) + den)
    (hodd : m % 2 = 1 → 2 * (m * den) < 2 * num + den ∧ 2 * num < 2 * (m * den) + den) :
    roundHalfEven num den = m := by
  have hsplit := Nat.div_add_mod num den
  have hrem := Nat.mod_lt num hden
  rw [Nat.mul_comm] at hsplit
  unfold roundHalfEven
  dsimp only
  generalize num / den = q at *
  generalize num % den = r at *
  -- Rounding down stops at the number or one before it.
  have hq : q = m ∨ q + 1 = m := by
    rcases Nat.lt_or_ge m q with hmore | hle
    · have hstep := Nat.mul_le_mul_right den hmore
      rw [Nat.succ_mul] at hstep
      omega
    · rcases Nat.lt_or_ge (q + 1) m with hless | hge
      · have hstep := Nat.mul_le_mul_right den hless
        rw [Nat.succ_mul, Nat.succ_mul] at hstep
        omega
      · omega
  rcases hq with rfl | rfl
  · split <;> omega
  · have hsucc : (q + 1) * den = q * den + den := Nat.succ_mul q den
    rw [hsucc] at hlower hupper hodd
    split <;> omega

namespace Format

variable {f : Format} {code num den m s : Nat}

lemma hidden_eq (f : Format) : f.hidden = 2 ^ f.fractionBits := rfl

lemma hidden_even (f : Format) : 2 ∣ f.hidden :=
  dvd_pow_self 2 (by have := f.fractionBits_pos; omega)

/-! ### Codes and significands -/

/-- A code is a significand together with the power of two that it counts; below the second step
the significand may lack its leading one. -/
lemma exists_significand (f : Format) (code : Nat) :
    ∃ s m, code = s * f.hidden + m ∧ (s = 0 ∨ f.hidden ≤ m) ∧ m < 2 * f.hidden := by
  have hpos := f.hidden_pos
  by_cases hsmall : code < f.hidden
  · exact ⟨0, code, by omega, .inl rfl, by omega⟩
  · have hsplit := Nat.div_add_mod code f.hidden
    have hrem := Nat.mod_lt code hpos
    have hone : 1 ≤ code / f.hidden := Nat.div_pos (by omega) hpos
    obtain ⟨t, ht⟩ := Nat.exists_eq_add_of_le' hone
    rw [ht, Nat.mul_comm, Nat.succ_mul] at hsplit
    exact ⟨t, f.hidden + code % f.hidden, by omega, .inr (by omega), by omega⟩

lemma units_of_lt (h : code < f.hidden) : f.units code = code := by
  simp [units, significand, h, Nat.div_eq_of_lt h]

lemma units_of_leading_one {s r : Nat} (hr : r < f.hidden) :
    f.units ((s + 1) * f.hidden + r) = (f.hidden + r) * 2 ^ s := by
  have hpos := f.hidden_pos
  have hdiv : ((s + 1) * f.hidden + r) / f.hidden = s + 1 := by
    rw [Nat.mul_comm, Nat.mul_add_div hpos, Nat.div_eq_of_lt hr, Nat.add_zero]
  have hmod : ((s + 1) * f.hidden + r) % f.hidden = r := by
    rw [Nat.mul_comm, Nat.mul_add_mod, Nat.mod_eq_of_lt hr]
  have hlarge : ¬ (s + 1) * f.hidden + r < f.hidden := by
    rw [Nat.succ_mul]
    omega
  rw [units, significand, if_neg hlarge, hdiv, hmod]
  rfl

/-- The magnitude of a code from its significand, up to the first code of the next step. -/
lemma units_eq (hs : s = 0 ∨ f.hidden ≤ m) (hm : m ≤ 2 * f.hidden) :
    f.units (s * f.hidden + m) = m * 2 ^ s := by
  have hpos := f.hidden_pos
  by_cases hsmall : m < f.hidden
  · have hzero : s = 0 := by omega
    rw [hzero, Nat.zero_mul, Nat.zero_add, units_of_lt hsmall, Nat.pow_zero, Nat.mul_one]
  · obtain ⟨r, rfl⟩ := Nat.exists_eq_add_of_le (Nat.le_of_not_lt hsmall)
    by_cases hr : r < f.hidden
    · rw [← units_of_leading_one hr, Nat.succ_mul, Nat.add_assoc]
    · have hlast : r = f.hidden := by omega
      have hcode : s * f.hidden + (f.hidden + r) = (s + 1 + 1) * f.hidden + 0 := by
        rw [hlast]
        ring
      rw [hcode, units_of_leading_one hpos, hlast]
      ring

lemma units_succ (hs : s = 0 ∨ f.hidden ≤ m) (hm : m < 2 * f.hidden) :
    f.units (s * f.hidden + m + 1) = (m + 1) * 2 ^ s := by
  rw [Nat.add_assoc]
  exact units_eq (by omega) (by omega)

lemma units_pred (hs : s = 0 ∨ f.hidden < m) (hm : m ≤ 2 * f.hidden) :
    f.units (s * f.hidden + m - 1) = (m - 1) * 2 ^ s := by
  rcases Nat.eq_zero_or_pos m with rfl | hpos
  · have hzero : s = 0 := by omega
    simp [hzero]
  · rw [Nat.add_sub_assoc hpos]
    exact units_eq (by omega) (by omega)

/-- The code before the first of a step counts smaller units. -/
lemma units_pred_first (f : Format) (s : Nat) :
    f.units ((s + 1) * f.hidden + f.hidden - 1) = (2 * f.hidden - 1) * 2 ^ s := by
  have hpos := f.hidden_pos
  have hcode : (s + 1) * f.hidden + f.hidden - 1 = s * f.hidden + (2 * f.hidden - 1) := by
    rw [Nat.succ_mul]
    omega
  rw [hcode]
  exact units_eq (by omega) (by omega)

/-! ### Rounding -/

lemma nearest_of_step (hden : 0 < den) (hs : s = 0 ∨ f.hidden * (den * 2 ^ s) ≤ num)
    (hlt : num < 2 * f.hidden * (den * 2 ^ s)) :
    f.nearest num den = min (s * f.hidden + roundHalfEven num (den * 2 ^ s)) f.infinity := by
  have hstep : (num / den).log2 - f.fractionBits = s := by
    have hupper : num / den < 2 ^ (f.fractionBits + s + 1) := by
      rw [Nat.div_lt_iff_lt_mul hden]
      calc num < 2 * f.hidden * (den * 2 ^ s) := hlt
        _ = 2 ^ (f.fractionBits + s + 1) * den := by
          rw [hidden_eq]
          ring
    rcases hs with rfl | hge
    · by_cases hzero : num / den = 0
      · simp [hzero]
      · have hlog := (Nat.log2_lt hzero).mpr hupper
        omega
    · have hlower : 2 ^ (f.fractionBits + s) ≤ num / den := by
        rw [Nat.le_div_iff_mul_le hden]
        calc 2 ^ (f.fractionBits + s) * den = f.hidden * (den * 2 ^ s) := by
              rw [hidden_eq]
              ring
          _ ≤ num := hge
      have hzero : num / den ≠ 0 := by
        have hpos := Nat.two_pow_pos (f.fractionBits + s)
        omega
      have hlog := (Nat.log2_eq_iff hzero).mpr ⟨hlower, hupper⟩
      omega
  unfold nearest
  rw [hstep]
  rfl

/-- A quotient that lies within half a step of a multiple of `2 ^ s` units rounds to the code that
counts so many steps. -/
lemma nearest_of_half_step (hden : 0 < den) (hfinite : s * f.hidden + m < f.infinity)
    (hs : s = 0 ∨ f.hidden * (den * 2 ^ s) ≤ num) (hlt : num < 2 * (f.hidden * (den * 2 ^ s)))
    (hlower : 2 * (m * (den * 2 ^ s)) ≤ 2 * num + den * 2 ^ s)
    (hupper : 2 * num ≤ 2 * (m * (den * 2 ^ s)) + den * 2 ^ s)
    (hodd : m % 2 = 1 → 2 * (m * (den * 2 ^ s)) < 2 * num + den * 2 ^ s ∧
      2 * num < 2 * (m * (den * 2 ^ s)) + den * 2 ^ s) :
    f.nearest num den = s * f.hidden + m := by
  have hstep : 0 < den * 2 ^ s := Nat.mul_pos hden (Nat.two_pow_pos s)
  rw [nearest_of_step hden hs (by rwa [Nat.mul_assoc]), roundHalfEven_eq hstep hlower hupper hodd]
  omega

/-- A number of units lies where the rounding to a code looks: between the middles of the code and
its neighbours, and not on a middle when the code is odd. -/
structure Rounds (f : Format) (q : ℚ) (code : Nat) : Prop where
  lower : (f.units (code - 1) + f.units code : ℚ) ≤ 2 * q
  upper : 2 * q ≤ f.units code + f.units (code + 1)
  odd : code % 2 = 1 →
    (f.units (code - 1) + f.units code : ℚ) < 2 * q ∧ 2 * q < f.units code + f.units (code + 1)

lemma Rounds.bounds (h : f.Rounds (num / den) code) (hden : 0 < den) :
    (f.units (code - 1) + f.units code) * den ≤ 2 * num ∧
      2 * num ≤ (f.units code + f.units (code + 1)) * den ∧
      (code % 2 = 1 → (f.units (code - 1) + f.units code) * den < 2 * num ∧
        2 * num < (f.units code + f.units (code + 1)) * den) := by
  have hpos : (0 : ℚ) < den := by exact_mod_cast hden
  have hdouble : 2 * ((num : ℚ) / den) = 2 * num / den := by ring
  obtain ⟨hlower, hupper, hodd⟩ := h
  rw [hdouble, le_div_iff₀ hpos] at hlower
  rw [hdouble, div_le_iff₀ hpos] at hupper
  rw [hdouble, lt_div_iff₀ hpos, div_lt_iff₀ hpos] at hodd
  refine ⟨by exact_mod_cast hlower, by exact_mod_cast hupper, fun h => ?_⟩
  exact_mod_cast hodd h

lemma parity_eq (f : Format) (s m : Nat) : (s * f.hidden + m) % 2 = m % 2 := by
  obtain ⟨half, hhalf⟩ := f.hidden_even
  have hstart : s * f.hidden = 2 * (s * half) := by
    rw [hhalf]
    ring
  omega

lemma Rounds.nearest_inner (h : f.Rounds (num / den) (s * f.hidden + m)) (hden : 0 < den)
    (hfinite : s * f.hidden + m < f.infinity) (hs : s = 0 ∨ f.hidden < m)
    (hm : m < 2 * f.hidden) : f.nearest num den = s * f.hidden + m := by
  have hscale (a b : Nat) :
      (a * 2 ^ s + b * 2 ^ s) * den = a * (den * 2 ^ s) + b * (den * 2 ^ s) := by ring
  have hbounds := h.bounds hden
  rw [units_eq (by omega) (by omega), units_succ (by omega) hm, units_pred hs (by omega), hscale,
    hscale, parity_eq, Nat.succ_mul m] at hbounds
  obtain ⟨hlower, hupper, hodd⟩ := hbounds
  have hstep : 0 < den * 2 ^ s := Nat.mul_pos hden (Nat.two_pow_pos s)
  -- Below zero there is no code, and then the lower bound says nothing.
  have hpred : m = 0 ∨ m * (den * 2 ^ s) = (m - 1) * (den * 2 ^ s) + den * 2 ^ s := by
    rcases m with - | k
    · exact .inl rfl
    · exact .inr (Nat.succ_mul k _)
  have hzero : m = 0 → m * (den * 2 ^ s) = 0 := by
    rintro rfl
    exact Nat.zero_mul _
  have htop : (m + 1) * (den * 2 ^ s) ≤ 2 * f.hidden * (den * 2 ^ s) :=
    Nat.mul_le_mul_right _ hm
  have hbottom : s = 0 ∨ (f.hidden + 1) * (den * 2 ^ s) ≤ m * (den * 2 ^ s) :=
    hs.imp_right fun hlt => Nat.mul_le_mul_right _ hlt
  rw [Nat.succ_mul, Nat.mul_assoc 2] at htop
  rw [Nat.succ_mul] at hbottom
  apply nearest_of_half_step hden hfinite <;> omega

lemma Rounds.nearest_first (h : f.Rounds (num / den) ((s + 1) * f.hidden + f.hidden))
    (hden : 0 < den) (hfinite : (s + 1) * f.hidden + f.hidden < f.infinity) :
    f.nearest num den = (s + 1) * f.hidden + f.hidden := by
  have hpos := f.hidden_pos
  have hdouble : den * 2 ^ (s + 1) = 2 * (den * 2 ^ s) := by ring
  have hlower : ((2 * f.hidden - 1) * 2 ^ s + f.hidden * 2 ^ (s + 1)) * den =
      (2 * f.hidden - 1) * (den * 2 ^ s) + f.hidden * (den * 2 ^ (s + 1)) := by ring
  have hupper : (f.hidden * 2 ^ (s + 1) + (f.hidden + 1) * 2 ^ (s + 1)) * den =
      f.hidden * (den * 2 ^ (s + 1)) + (f.hidden + 1) * (den * 2 ^ (s + 1)) := by ring
  have hbounds := h.bounds hden
  rw [units_pred_first, units_eq (by omega) (by omega), units_succ (by omega) (by omega), hlower,
    hupper, hdouble, Nat.sub_one_mul, Nat.succ_mul f.hidden, Nat.mul_left_comm f.hidden,
    Nat.mul_assoc 2] at hbounds
  obtain ⟨hbelow, habove, -⟩ := hbounds
  obtain ⟨half, hhalf⟩ := f.hidden_even
  have hone : den * 2 ^ s ≤ f.hidden * (den * 2 ^ s) := Nat.le_mul_of_pos_left _ hpos
  have hstep : 0 < den * 2 ^ s := Nat.mul_pos hden (Nat.two_pow_pos s)
  -- Below the code the smaller step counts, and there the quotient is rounded up to the code.
  by_cases hsmaller : num < 2 * (f.hidden * (den * 2 ^ s))
  · have hcode : (s + 1) * f.hidden + f.hidden = s * f.hidden + 2 * f.hidden := by ring
    rw [hcode] at hfinite ⊢
    have hmul : 2 * f.hidden * (den * 2 ^ s) = 2 * (f.hidden * (den * 2 ^ s)) := Nat.mul_assoc ..
    apply nearest_of_half_step hden hfinite <;> omega
  · have hmul : f.hidden * (den * 2 ^ (s + 1)) = 2 * (f.hidden * (den * 2 ^ s)) := by
      rw [hdouble, Nat.mul_left_comm]
    apply nearest_of_half_step hden hfinite <;> omega

/-- Every quotient that lies around a finite code rounds to it. -/
theorem Rounds.nearest_eq (h : f.Rounds (num / den) code) (hden : 0 < den)
    (hfinite : code < f.infinity) : f.nearest num den = code := by
  obtain ⟨s, m, rfl, hs, hm⟩ := f.exists_significand code
  by_cases hinner : s = 0 ∨ f.hidden < m
  · exact h.nearest_inner hden hfinite hinner hm
  · obtain ⟨t, rfl⟩ := Nat.exists_eq_succ_of_ne_zero (n := s) (by omega)
    obtain rfl : m = f.hidden := by omega
    exact h.nearest_first hden hfinite

end Format

end NumericTrees
