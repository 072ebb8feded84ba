import NumericTrees.Binary.Format

/-!
# Rounding to nearest

Every operation on floating-point numbers is carried out exactly, as a quotient of two natural
numbers of units, and rounded once. `roundHalfEven` rounds a quotient to a whole number and
`Format.nearest` rounds it to a code.
-/

namespace NumericTrees

/-- The whole number nearest to `num / den`; of two equally near ones the even one. -/
def roundHalfEven (num den : Nat) : Nat :=
  let quotient := num / den
  let remainder := num % den
  if 2 * remainder < den ∨ 2 * remainder = den ∧ quotient % 2 = 0 then quotient else quotient + 1

theorem roundHalfEven_ge (num den : Nat) : num / den ≤ roundHalfEven num den := by
  unfold roundHalfEven
  dsimp only
  split <;> omega

theorem roundHalfEven_le (num den : Nat) : roundHalfEven num den ≤ num / den + 1 := by
  unfold roundHalfEven
  dsimp only
  split <;> omega

namespace Format

/-- The code nearest to `num / den` units, a tie going to the even code, and infinity from the
middle between the largest finite magnitude and the power of two that follows it. The codes in
reach have significands that are counted in steps of `2 ^ step` units; rounding up past the last of
them lands on the first code of the next exponent, because codes run on. -/
def nearest (f : Format) (num den : Nat) : Nat :=
  let step := (num / den).log2 - f.fractionBits
  min (step * f.hidden + roundHalfEven num (den * Nat.pow 2 step)) f.infinity

theorem nearest_le_infinity (f : Format) (num den : Nat) : f.nearest num den ≤ f.infinity :=
  Nat.min_le_right _ _

theorem nearest_lt_codes (f : Format) (num den : Nat) : f.nearest num den < f.codes :=
  Nat.lt_of_le_of_lt (f.nearest_le_infinity num den) f.infinity_lt_codes

end Format

end NumericTrees
