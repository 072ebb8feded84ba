import NumericTrees.Proofs.NearestMagnitude

/-!
# What a quotient rounds to

Rounding finds the nearest magnitude for every quotient of units. A magnitude of the format is its
own rounding. From the overflow threshold on, which is the middle between the largest finite
magnitude and the power of two that follows it, a quotient rounds to infinity.
-/

namespace NumericTrees

lemma roundHalfEven_bounds (num : Nat) {den : Nat} (hden : 0 < den) :
    2 * (roundHalfEven num den * den) ≤ 2 * num + den ∧
      2 * num ≤ 2 * (roundHalfEven num den * den) + den ∧
      (roundHalfEven num den % 2 = 1 →
        2 * (roundHalfEven num den * den) < 2 * num + den ∧
          2 * num < 2 * (roundHalfEven num den * den) + den) := by
  have hsplit := Nat.div_add_mod num den
  have hrem := Nat.mod_lt num hden
  rw [Nat.mul_comm] at hsplit
  unfold roundHalfEven
  dsimp only
  generalize num / den = q at *
  generalize num % den = r at *
  have hsucc : (q + 1) * den = q * den + den := Nat.succ_mul q den
  split
  · omega
  · rw [hsucc]
    omega

namespace Format

variable {f : Format} {q : ℚ} {code num den m s : Nat}

/-! ### Steps -/

/-- The steps in which the codes next to a quotient are counted are small enough for a leading one
and large enough for a significand. -/
lemma step_bounds (f : Format) (num : Nat) (hden : 0 < den)
    (hs : s = (num / den).log2 - f.fractionBits) :
    (s = 0 ∨ f.hidden * (den * 2 ^ s) ≤ num) ∧ num < 2 * f.hidden * (den * 2 ^ s) := by
  have hupper : num / den < 2 ^ (f.fractionBits + s + 1) := by
    have hlog : num / den < 2 ^ ((num / den).log2 + 1) := Nat.lt_log2_self
    exact hlog.trans_le (Nat.pow_le_pow_right (by decide) (by omega))
  constructor
  · rcases Nat.eq_zero_or_pos s with hzero | hpos
    · exact .inl hzero
    · right
      have hne : num / den ≠ 0 := by
        intro hnone
        rw [hnone, Nat.log2_zero] at hs
        omega
      have hlog : 2 ^ (f.fractionBits + s) ≤ num / den := by
        rw [show f.fractionBits + s = (num / den).log2 by omega]
        exact Nat.log2_self_le hne
      calc f.hidden * (den * 2 ^ s) = 2 ^ (f.fractionBits + s) * den := by
            rw [hidden_eq]
            ring
        _ ≤ num / den * den := Nat.mul_le_mul_right _ hlog
        _ ≤ num := Nat.div_mul_le_self _ _
  · calc num < 2 ^ (f.fractionBits + s + 1) * den := (Nat.div_lt_iff_lt_mul hden).mp hupper
      _ = 2 * f.hidden * (den * 2 ^ s) := by
        rw [hidden_eq]
        ring

lemma Rounds.of_bounds (hden : 0 < den)
    (hlower : (f.units (code - 1) + f.units code) * den ≤ 2 * num)
    (hupper : 2 * num ≤ (f.units code + f.units (code + 1)) * den)
    (hodd : code % 2 = 1 → (f.units (code - 1) + f.units code) * den < 2 * num ∧
      2 * num < (f.units code + f.units (code + 1)) * den) : f.Rounds (num / den) code := by
  have hpos : (0 : ℚ) < den := by exact_mod_cast hden
  have hdouble : 2 * ((num : ℚ) / den) = 2 * num / den := by ring
  constructor
  · rw [hdouble, le_div_iff₀ hpos]
    exact_mod_cast hlower
  · rw [hdouble, div_le_iff₀ hpos]
    exact_mod_cast hupper
  · intro h
    rw [hdouble, lt_div_iff₀ hpos, div_lt_iff₀ hpos]
    exact_mod_cast hodd h

/-- The middle below a code that counts the steps nearest to a quotient is not above it. -/
lemma lower_of_half_step (hs : s = 0 ∨ f.hidden * (den * 2 ^ s) ≤ num ∧ f.hidden ≤ m)
    (hm : m ≤ 2 * f.hidden) (hlower : 2 * (m * (den * 2 ^ s)) ≤ 2 * num + den * 2 ^ s)
    (hodd : m % 2 = 1 → 2 * (m * (den * 2 ^ s)) < 2 * num + den * 2 ^ s) :
    (f.units (s * f.hidden + m - 1) + f.units (s * f.hidden + m)) * den ≤ 2 * num ∧
      (m % 2 = 1 →
        (f.units (s * f.hidden + m - 1) + f.units (s * f.hidden + m)) * den < 2 * num) := by
  have hcode : f.units (s * f.hidden + m) = m * 2 ^ s := units_eq (by omega) hm
  by_cases hinner : s = 0 ∨ f.hidden < m
  · rw [hcode, units_pred hinner hm]
    have hsum : ((m - 1) * 2 ^ s + m * 2 ^ s) * den =
        (m - 1) * (den * 2 ^ s) + m * (den * 2 ^ s) := by ring
    have hpred : m = 0 ∨ m * (den * 2 ^ s) = (m - 1) * (den * 2 ^ s) + den * 2 ^ s := by
      rcases m with - | k
      · exact .inl rfl
      · exact .inr (Nat.succ_mul k _)
    have hzero : m = 0 → (m - 1) * (den * 2 ^ s) + m * (den * 2 ^ s) = 0 := by
      rintro rfl
      rw [Nat.zero_sub, Nat.zero_mul]
    rw [hsum]
    omega
  · -- Below the first code of a step the smaller step counts.
    obtain ⟨t, rfl⟩ := Nat.exists_eq_succ_of_ne_zero (n := s) (by omega)
    obtain rfl : m = f.hidden := by omega
    have hsum : ((2 * f.hidden - 1) * 2 ^ t + f.hidden * 2 ^ (t + 1)) * den =
        (2 * f.hidden - 1) * (den * 2 ^ t) + f.hidden * (den * 2 ^ (t + 1)) := by ring
    have hdouble : f.hidden * (den * 2 ^ (t + 1)) = 2 * f.hidden * (den * 2 ^ t) := by ring
    have heven := f.hidden_even
    rw [hcode, units_pred_first, hsum, Nat.sub_one_mul, hdouble]
    rw [hdouble] at hs
    omega

lemma upper_of_half_step (hs : s = 0 ∨ f.hidden ≤ m) (hm : m ≤ 2 * f.hidden)
    (hlt : num < 2 * f.hidden * (den * 2 ^ s))
    (hupper : 2 * num ≤ 2 * (m * (den * 2 ^ s)) + den * 2 ^ s)
    (hodd : m % 2 = 1 → 2 * num < 2 * (m * (den * 2 ^ s)) + den * 2 ^ s) :
    2 * num ≤ (f.units (s * f.hidden + m) + f.units (s * f.hidden + m + 1)) * den ∧
      (m % 2 = 1 →
        2 * num < (f.units (s * f.hidden + m) + f.units (s * f.hidden + m + 1)) * den) := by
  have hcode : f.units (s * f.hidden + m) = m * 2 ^ s := units_eq hs hm
  rcases Nat.lt_or_ge m (2 * f.hidden) with hinner | hlast
  · rw [hcode, units_succ hs hinner]
    have hsum : (m * 2 ^ s + (m + 1) * 2 ^ s) * den =
        2 * (m * (den * 2 ^ s)) + den * 2 ^ s := by ring
    rw [hsum]
    exact ⟨hupper, hodd⟩
  · -- At the last code of a step the quotient is not even above the code.
    obtain rfl : m = 2 * f.hidden := by omega
    have hnext := f.units_lt_succ (s * f.hidden + 2 * f.hidden)
    have hstrict : 2 * num < (f.units (s * f.hidden + 2 * f.hidden) +
        f.units (s * f.hidden + 2 * f.hidden + 1)) * den := by
      calc 2 * num < 2 * (2 * f.hidden * (den * 2 ^ s)) := by omega
        _ = (2 * f.units (s * f.hidden + 2 * f.hidden)) * den := by
          rw [hcode]
          ring
        _ ≤ _ := Nat.mul_le_mul_right _ (by omega)
    exact ⟨hstrict.le, fun _ => hstrict⟩

/-! ### Codes -/

/-- Without a largest magnitude, every quotient would have a code that it rounds to. -/
lemma exists_rounds (f : Format) (num : Nat) (hden : 0 < den) :
    ∃ code, f.nearest num den = min code f.infinity ∧ f.Rounds (num / den) code := by
  obtain ⟨s, hs⟩ : ∃ s, s = (num / den).log2 - f.fractionBits := ⟨_, rfl⟩
  obtain ⟨hleading, hlt⟩ := f.step_bounds num hden hs
  have hstep : 0 < den * 2 ^ s := Nat.mul_pos hden (Nat.two_pow_pos s)
  obtain ⟨hlower, hupper, hodd⟩ := roundHalfEven_bounds num hstep
  have hfloor := roundHalfEven_ge num (den * 2 ^ s)
  have hceiling := roundHalfEven_le num (den * 2 ^ s)
  refine ⟨s * f.hidden + roundHalfEven num (den * 2 ^ s), ?_, ?_⟩
  · rw [hs]
    rfl
  generalize roundHalfEven num (den * 2 ^ s) = m at *
  have hm : m ≤ 2 * f.hidden := by
    have hdiv : num / (den * 2 ^ s) < 2 * f.hidden := (Nat.div_lt_iff_lt_mul hstep).mpr hlt
    omega
  have hsignificand : s = 0 ∨ f.hidden * (den * 2 ^ s) ≤ num ∧ f.hidden ≤ m :=
    hleading.imp_right fun h => ⟨h, ((Nat.le_div_iff_mul_le hstep).mpr h).trans hfloor⟩
  obtain ⟨hbelow, hbelow'⟩ :=
    lower_of_half_step hsignificand hm hlower fun h => (hodd h).1
  obtain ⟨habove, habove'⟩ :=
    upper_of_half_step (hsignificand.imp_right And.right) hm hlt hupper fun h => (hodd h).2
  refine .of_bounds hden hbelow habove fun h => ?_
  rw [parity_eq] at h
  exact ⟨hbelow' h, habove' h⟩

lemma infinity_even (f : Format) : f.infinity % 2 = 0 := by
  obtain ⟨half, hhalf⟩ := f.hidden_even
  rw [infinity, hhalf, Nat.mul_left_comm]
  exact Nat.mul_mod_right 2 _

/-- Rounding finds the nearest magnitude. -/
theorem nearestTo_nearest (f : Format) (num : Nat) (hden : 0 < den) :
    f.NearestTo (num / den) (f.nearest num den) := by
  obtain ⟨code, hcode, hrounds⟩ := f.exists_rounds num hden
  rcases Nat.lt_or_ge code f.infinity with hfinite | hinfinite
  · rw [hcode, Nat.min_eq_left hfinite.le]
    exact hrounds.nearestTo hfinite
  · rw [hcode, Nat.min_eq_right hinfinite]
    refine ⟨le_rfl, fun other hother => ?_, fun _ _ _ _ => f.infinity_even⟩
    rcases hother.lt_or_eq with hlt | rfl
    · have hprev := f.units_le_units (Nat.le_sub_one_of_lt (hlt.trans_le hinfinite))
      have hlast := f.units_le_units hinfinite
      rw [← not_lt, abs_sub_lt_iff_of_lt (f.units_lt_units hlt)]
      linarith [hrounds.lower]
    · exact le_rfl

lemma nearestTo_units (hcode : code ≤ f.infinity) : f.NearestTo (f.units code) code := by
  refine ⟨hcode, fun other _ => ?_, fun other _ hne htie => absurd ?_ hne⟩
  · rw [sub_self, abs_zero]
    exact abs_nonneg _
  · rw [sub_self, abs_zero, abs_eq_zero, sub_eq_zero] at htie
    exact f.units_strictMono.injective (by exact_mod_cast htie)

lemma NearestTo.eq_zero (h : f.NearestTo 0 code) : code = 0 := by
  have hzero : f.NearestTo 0 0 := by
    have hunits := f.nearestTo_units (Nat.zero_le f.infinity)
    rwa [units_zero, Nat.cast_zero] at hunits
  exact h.unique hzero

/-! ### Overflow -/

lemma infinity_pos (f : Format) : 0 < f.infinity := by
  have hexponent : 2 ^ 1 ≤ 2 ^ f.exponentBits :=
    Nat.pow_le_pow_right (by decide) (by have := f.two_le_exponentBits; omega)
  exact Nat.mul_pos (Nat.sub_pos_of_lt hexponent) f.hidden_pos

lemma infinity_eq (f : Format) :
    ∃ s, s + 3 = 2 ^ f.exponentBits ∧ f.infinity = s * f.hidden + 2 * f.hidden := by
  have hfour : 2 ^ 2 ≤ 2 ^ f.exponentBits := Nat.pow_le_pow_right (by decide) f.two_le_exponentBits
  obtain ⟨s, hs⟩ := Nat.exists_eq_add_of_le' ((show 3 ≤ 2 ^ 2 by decide).trans hfour)
  refine ⟨s, hs.symm, ?_⟩
  change (2 ^ f.exponentBits - 1) * f.hidden = _
  rw [hs]
  change (s + 2) * f.hidden = _
  ring

/-- The least rational number that is too large for the format. -/
def overflow (f : Format) : ℚ :=
  let top : Int := 2 ^ (f.exponentBits - 1)
  2 ^ top - 2 ^ (top - f.fractionBits - 2)

/-- The last two magnitudes, in units. Their exponent counts `2 ^ s` units in every step. -/
lemma exists_last_units (f : Format) :
    ∃ s : Nat, (s : Int) = 2 * 2 ^ (f.exponentBits - 1) - 3 ∧
      (f.units f.infinity : ℚ) = 2 ^ (s + f.fractionBits + 1) ∧
      (f.units (f.infinity - 1) : ℚ) = 2 ^ (s + f.fractionBits + 1) - 2 ^ s := by
  have hpos := f.hidden_pos
  obtain ⟨s, hs, hinfinity⟩ := f.infinity_eq
  refine ⟨s, ?_, ?_, ?_⟩
  · obtain ⟨e, he⟩ := Nat.exists_eq_add_of_le' f.two_le_exponentBits
    rw [he, Nat.pow_succ'] at hs
    rw [he]
    have hcast : (s : Int) + 3 = 2 * (2 ^ (e + 1) : Nat) := by exact_mod_cast hs
    push_cast at hcast
    exact eq_sub_of_add_eq hcast
  · rw [hinfinity, units_eq (by omega) le_rfl, hidden_eq]
    push_cast
    ring
  · rw [hinfinity, units_pred (by omega) le_rfl]
    push_cast [show 1 ≤ 2 * f.hidden by omega]
    rw [hidden_eq]
    push_cast
    ring

/-- The overflow threshold is the middle between the last two magnitudes. -/
lemma two_mul_overflow (f : Format) :
    2 * (f.overflow * 2 ^ f.scale) = f.units (f.infinity - 1) + f.units f.infinity := by
  obtain ⟨s, hs, hlast, hprev⟩ := f.exists_last_units
  -- All exponents are sums of the greatest one and the bits of the fraction.
  obtain ⟨top, htop⟩ : ∃ top : Int, top = 2 ^ (f.exponentBits - 1) := ⟨_, rfl⟩
  rw [← htop] at hs
  have htwo : 2 ≤ 2 ^ (f.exponentBits - 1) :=
    Nat.le_self_pow (by have := f.two_le_exponentBits; omega) 2
  have hscale : (f.scale : Int) = top - 2 + f.fractionBits := by
    change ((2 ^ (f.exponentBits - 1) - 2 + f.fractionBits : Nat) : Int) = _
    rw [htop]
    push_cast [htwo]
    rfl
  have hlargest : (2 : ℚ) ^ top * 2 ^ f.scale = 2 ^ (s + f.fractionBits + 1) := by
    rw [← zpow_natCast, ← zpow_natCast, ← zpow_add₀ two_ne_zero]
    congr 1
    push_cast
    omega
  have hgap : 2 * ((2 : ℚ) ^ (top - f.fractionBits - 2) * 2 ^ f.scale) = 2 ^ s := by
    rw [← zpow_natCast, ← zpow_natCast, ← zpow_add₀ two_ne_zero, ← zpow_one_add₀ two_ne_zero]
    congr 1
    omega
  rw [hlast, hprev, overflow, ← htop, sub_mul, mul_sub, hlargest, hgap]
  ring

lemma overflow_pos (f : Format) : 0 < f.overflow := by
  have hlast := f.units_lt_units (Nat.sub_one_lt_of_lt f.infinity_pos)
  have hprev : (0 : ℚ) ≤ f.units (f.infinity - 1) := by positivity
  have hmiddle : 0 < f.overflow * 2 ^ f.scale := by linarith [f.two_mul_overflow]
  exact pos_of_mul_pos_left hmiddle (by positivity)

lemma NearestTo.eq_infinity_iff (h : f.NearestTo (q * 2 ^ f.scale) code) :
    code = f.infinity ↔ f.overflow ≤ q := by
  have hpos : (0 : ℚ) < 2 ^ f.scale := by positivity
  have hmiddle : f.overflow ≤ q ↔
      (f.units (f.infinity - 1) + f.units f.infinity : ℚ) ≤ 2 * (q * 2 ^ f.scale) := by
    rw [← two_mul_overflow, mul_le_mul_iff_right₀ two_pos, mul_le_mul_iff_left₀ hpos]
  rw [hmiddle]
  constructor
  · rintro rfl
    exact (h.le_of_gt (Nat.sub_one_lt_of_lt f.infinity_pos)).1
  · intro hle
    by_contra hne
    have hlt : code < f.infinity := lt_of_le_of_ne h.le_infinity hne
    obtain ⟨hupper, hodd⟩ := h.le_of_lt hlt le_rfl
    rcases (Nat.le_sub_one_of_lt hlt).lt_or_eq with hbefore | hlast
    · have hunits := f.units_lt_units hbefore
      linarith
    · -- The last finite code is odd, so the middle above it does not round to it.
      have hinfinity := f.infinity_even
      have hstrict := hodd (by omega)
      rw [hlast] at hstrict
      linarith

end Format

end NumericTrees
