/-!
# Binary floating-point formats

A format fixes how many bits of a word hold the exponent and how many the fraction. The bits below
the sign, read as one natural number, are the *code* of a magnitude. Codes are ordered as the
magnitudes are: from zero through the finite magnitudes to the code of infinity, and every larger
code is a NaN.

The unit of a format is its least positive magnitude, `2 ^ -scale`. Every finite magnitude is a
whole number of units, so that all questions about values are questions about natural numbers.
-/

namespace NumericTrees

/-- Widths of the exponent and of the fraction of a binary floating-point word. -/
structure Format where
  exponentBits : Nat
  fractionBits : Nat
  two_le_exponentBits : 2 ≤ exponentBits := by decide
  fractionBits_pos : 0 < fractionBits := by decide

namespace Format

/-- Words of 32 bits. -/
def single : Format where
  exponentBits := 8
  fractionBits := 23

/-- Words of 64 bits. -/
def double : Format where
  exponentBits := 11
  fractionBits := 52

/-- The number of bytes of a word. -/
def wordBytes (f : Format) : Nat := (1 + f.exponentBits + f.fractionBits) / 8

/-- The weight of the leading one that a word does not store, and the number of codes that share
one exponent. -/
def hidden (f : Format) : Nat := Nat.pow 2 f.fractionBits

/-- The number of codes. -/
def codes (f : Format) : Nat := Nat.pow 2 (f.exponentBits + f.fractionBits)

/-- The code of infinity. -/
def infinity (f : Format) : Nat := (Nat.pow 2 f.exponentBits - 1) * f.hidden

/-- The least positive magnitude is `2 ^ -scale`. -/
def scale (f : Format) : Nat := Nat.pow 2 (f.exponentBits - 1) - 2 + f.fractionBits

/-- The significand of a code: the fraction, with its leading one where the exponent is not the
least. -/
def significand (f : Format) (code : Nat) : Nat :=
  if code < f.hidden then code else f.hidden + code % f.hidden

/-- The magnitude of a code in units. At the code of infinity this is the power of two that
follows the largest finite magnitude. -/
def units (f : Format) (code : Nat) : Nat :=
  f.significand code * Nat.pow 2 (code / f.hidden - 1)

theorem hidden_pos (f : Format) : 0 < f.hidden := Nat.two_pow_pos _

theorem codes_eq (f : Format) : f.codes = Nat.pow 2 f.exponentBits * f.hidden :=
  Nat.pow_add ..

/-- Above the code of infinity there is room for a whole fraction. -/
theorem infinity_add_hidden (f : Format) : f.infinity + f.hidden = f.codes := by
  have h : 0 < Nat.pow 2 f.exponentBits := Nat.two_pow_pos _
  rw [infinity, codes_eq, Nat.sub_mul, Nat.one_mul]
  exact Nat.sub_add_cancel (Nat.le_mul_of_pos_left _ h)

theorem infinity_lt_codes (f : Format) : f.infinity < f.codes := by
  have h := f.infinity_add_hidden
  have hpos := f.hidden_pos
  omega

@[simp] theorem units_zero (f : Format) : f.units 0 = 0 := by
  simp [units, significand, f.hidden_pos]

end Format

end NumericTrees
