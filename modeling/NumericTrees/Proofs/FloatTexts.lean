import NumericTrees.Number.Text
import NumericTrees.Proofs.ExactCoercion

/-!
# Texts of floating-point numbers

The text of a floating-point number is formatted from what it is displayed as and from a double of
the same class. The digits that are displayed have no letters among them and a point only in front
of a fraction, so every finite number gets a text with one point. Such a text determines the number.
-/

namespace NumericTrees

namespace Binary

variable {f : Format} {x y : Binary f}

lemma isInfinite_of_isNaN (h : x.isNaN = true) : x.isInfinite = false := by
  have hlt : f.infinity < x.code.val := of_decide_eq_true h
  exact beq_eq_false_iff_ne.mpr hlt.ne'

/-! ### Widening -/

section Widening

variable {x : Single}

lemma isFinite_convert_double (h : x.isFinite = true) : (x.convert .double).isFinite = true := by
  have hstands : (Number.float64 (x.convert .double)).StandsFor x.quantity := x.standsFor_convert
  rw [quantity_of_isFinite h] at hstands
  have hexact := hstands.quantity_eq (Number.float64_represents_single h)
  exact (quantity_eq_rational_iff.mp hexact).1

lemma isNaN_convert_double (x : Single) : (x.convert .double).isNaN = x.isNaN := by
  obtain hnan | ⟨negative, rfl⟩ | hfinite := x.nan_or_infinity_or_finite
  · rw [convert, if_pos hnan, isNaN_nan, hnan]
  · rw [convert_infinity, isNaN_infinity, isNaN_infinity]
  · rw [isNaN_of_isFinite hfinite, isNaN_of_isFinite (isFinite_convert_double hfinite)]

lemma isInfinite_convert_double (x : Single) : (x.convert .double).isInfinite = x.isInfinite := by
  obtain hnan | ⟨negative, rfl⟩ | hfinite := x.nan_or_infinity_or_finite
  · rw [convert, if_pos hnan, isInfinite_of_isNaN isNaN_nan, isInfinite_of_isNaN hnan]
  · rw [convert_infinity, isInfinite_infinity, isInfinite_infinity]
  · rw [isInfinite_of_isFinite hfinite, isInfinite_of_isFinite (isFinite_convert_double hfinite)]

lemma negative_convert_double (h : x.isInfinite = true) :
    (x.convert .double).negative = x.negative := by
  obtain hnan | ⟨negative, rfl⟩ | hfinite := x.nan_or_infinity_or_finite
  · exact absurd h (Bool.eq_false_iff.mp (isInfinite_of_isNaN hnan))
  · rw [convert_infinity]
    rfl
  · exact absurd h (Bool.eq_false_iff.mp (isInfinite_of_isFinite hfinite))

end Widening

/-! ### Formatting -/

/-- The characters of a number in front of a suffix: a sign for a set sign bit and the shortest
decimal with a point. Infinities and NaN carry no suffix. -/
def chars (suffix : List Char) (x : Binary f) : List Char :=
  if x.isNaN then ['n', 'a', 'n']
  else
    (if x.negative then ['-'] else []) ++
      if x.isInfinite then ['i', 'n', 'f'] else x.shortest.positional ++ suffix

lemma display_of_isFinite (h : x.isFinite = true) :
    x.display = (if x.negative then ['-'] else []) ++ x.shortest.display := by
  rw [display, isNaN_of_isFinite h, isInfinite_of_isFinite h]
  rfl

/-- Of the marks that formatting looks for only the point can stand in a finite number. -/
lemma has_mark_iff (h : x.isFinite = true) :
    (x.display.contains '.' || x.display.contains 'e' || x.display.contains 'E') = true ↔
      '.' ∈ x.shortest.display := by
  have hletter (c : Char) (hsign : c ≠ '-') (hpoint : c ≠ '.') (hdigit : c.isDigit = false) :
      c ∉ x.display := by
    intro hmem
    rw [display_of_isFinite h, List.mem_append] at hmem
    obtain hmem | hmem := hmem
    · split at hmem
      · exact hsign (List.mem_singleton.mp hmem)
      · cases hmem
    · obtain hmem | hmem := Decimal.mem_display hmem
      · exact hpoint hmem
      · exact absurd hmem (Bool.eq_false_iff.mp hdigit)
  have hmark : '.' ∈ x.display ↔ '.' ∈ x.shortest.display := by
    rw [display_of_isFinite h, List.mem_append, or_iff_right]
    split <;> decide
  simp only [Bool.or_eq_true, List.contains_iff_mem, hmark,
    hletter 'e' (by decide) (by decide) (by decide),
    hletter 'E' (by decide) (by decide) (by decide), or_false]

/-- Formatting asks a double of the same class and adds the point that is not displayed. -/
lemma formatFloat_display {value : Double} (suffix : List Char) (hnan : value.isNaN = x.isNaN)
    (hinfinite : value.isInfinite = x.isInfinite)
    (hsign : x.isInfinite = true → value.negative = x.negative) :
    Number.formatFloat value x.display suffix = x.chars suffix := by
  rw [Number.formatFloat, chars, hnan, hinfinite]
  obtain hx | ⟨negative, rfl⟩ | hx := x.nan_or_infinity_or_finite
  · rw [if_pos hx, if_pos hx]
  · rw [hsign (isInfinite_infinity negative), isNaN_infinity, isInfinite_infinity]
    cases negative <;> rfl
  · rw [isNaN_of_isFinite hx, isInfinite_of_isFinite hx]
    simp only [Bool.false_eq_true, if_false, has_mark_iff hx]
    rw [display_of_isFinite hx, Decimal.positional_eq]
    split
    · rw [List.append_assoc]
    · rw [List.append_assoc, List.append_assoc, List.singleton_append]

lemma chars_of_finite (suffix : List Char) (h : x.isFinite = true) :
    x.chars suffix =
      (if x.negative = true then ['-'] else []) ++ (x.shortest.positional ++ suffix) := by
  rw [chars, isNaN_of_isFinite h, isInfinite_of_isFinite h]
  rfl

/-- A finite number is given by its text. -/
theorem eq_of_chars_eq {suffix : List Char} (hx : x.isFinite = true) (hy : y.isFinite = true)
    (h : x.chars suffix = y.chars suffix) : x = y := by
  rw [chars_of_finite suffix hx, chars_of_finite suffix hy, ← List.append_assoc,
    ← List.append_assoc] at h
  obtain ⟨hsign, htext⟩ := eq_of_signed_eq x.shortest.minus_not_mem_positional
    y.shortest.minus_not_mem_positional (List.append_cancel_right h)
  have hcode := code_eq_of_value_eq hx hy (Decimal.value_eq_of_positional_eq htext)
  obtain ⟨negative, code⟩ := x
  obtain ⟨negative', code'⟩ := y
  rw [Binary.mk.injEq]
  exact ⟨Bool.eq_iff_iff.mpr hsign, hcode⟩

end Binary

namespace Number

lemma chars_float32 (x : Single) : (float32 x).chars = x.chars ['f'] :=
  Binary.formatFloat_display ['f'] x.isNaN_convert_double x.isInfinite_convert_double
    Binary.negative_convert_double

lemma chars_float64 (x : Double) : (float64 x).chars = x.chars [] :=
  Binary.formatFloat_display [] rfl rfl fun _ => rfl

end Number

end NumericTrees
