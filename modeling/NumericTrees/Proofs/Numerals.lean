import Mathlib.Data.List.DropRight
import NumericTrees.Proofs.DecimalText

/-!
# Numerals

A numeral is a text: digits around a point, at least one of them in front of it, and a minus sign
before them or not. Its significant digits remain when the zeros at both ends are taken away. The
number that it denotes is a whole number of powers of ten with so many digits, and a whole number
of powers of ten is written with no more significant digits than it has.
-/

namespace NumericTrees

section Digits

variable {digits : List Char} {c : Char}

/-- What remains of digits without the zeros at their two ends. -/
def significantDigits (digits : List Char) : List Char :=
  (digits.dropWhile (· == '0')).rdropWhile (· == '0')

lemma toNat_of_isDigit (h : c.isDigit) : '0'.toNat ≤ c.toNat ∧ c.toNat - '0'.toNat < 10 := by
  have hbounds := Char.isDigit_iff_toNat.mp h
  have hzero : '0'.toNat = 48 := rfl
  have hnine : '9'.toNat = 57 := rfl
  omega

lemma ofDigitChars_lt (h : ∀ c ∈ digits, c.isDigit) :
    Nat.ofDigitChars 10 digits 0 < 10 ^ digits.length := by
  induction digits with
  | nil => simp
  | cons c rest ih =>
    have hrest := ih fun d hd => h d (List.mem_cons_of_mem c hd)
    have hdigit := (toNat_of_isDigit (h c List.mem_cons_self)).2
    rw [Nat.ofDigitChars_cons, Nat.ofDigitChars_eq_ofDigitChars_zero, List.length_cons,
      Nat.pow_succ, Nat.mul_zero, Nat.zero_add]
    have hle := Nat.mul_le_mul_left (10 ^ rest.length) (Nat.le_of_lt_succ hdigit)
    omega

lemma ofDigitChars_zeros {zeros : List Char} (h : ∀ c ∈ zeros, c = '0') (init : Nat) :
    Nat.ofDigitChars 10 zeros init = 10 ^ zeros.length * init := by
  have hreplicate : zeros = List.replicate zeros.length '0' := List.eq_replicate_iff.mpr ⟨rfl, h⟩
  rw [hreplicate, Nat.ofDigitChars_replicate_zero, List.length_replicate]

lemma ofDigitChars_significantDigits (digits : List Char) :
    ∃ zeros, Nat.ofDigitChars 10 digits 0 =
      Nat.ofDigitChars 10 (significantDigits digits) 0 * 10 ^ zeros := by
  have hfront : Nat.ofDigitChars 10 digits 0 =
      Nat.ofDigitChars 10 (digits.dropWhile (· == '0')) 0 := by
    have hzeros : ∀ c ∈ digits.takeWhile (· == '0'), c = '0' := fun c hc =>
      beq_iff_eq.mp (List.mem_takeWhile_imp (p := (· == '0')) hc)
    conv_lhs => rw [← List.takeWhile_append_dropWhile (p := (· == '0')) (l := digits)]
    rw [Nat.ofDigitChars_append, ofDigitChars_zeros hzeros, Nat.mul_zero]
  refine ⟨((digits.dropWhile (· == '0')).rtakeWhile (· == '0')).length, ?_⟩
  rw [hfront]
  conv_lhs => rw [← List.rdropWhile_append_rtakeWhile (p := (· == '0'))
    (l := digits.dropWhile (· == '0'))]
  rw [Nat.ofDigitChars_append, ofDigitChars_zeros, Nat.mul_comm, significantDigits]
  exact fun c hc => beq_iff_eq.mp (List.mem_rtakeWhile_imp (p := (· == '0')) hc)

lemma isDigit_of_mem_significantDigits (h : ∀ c ∈ digits, c.isDigit) :
    ∀ c ∈ significantDigits digits, c.isDigit := fun c hc =>
  h c ((List.dropWhile_suffix _).mem ((List.rdropWhile_prefix _ _).mem hc))

/-- The first significant digit is not zero. -/
lemma le_ofDigitChars_significantDigits (h : ∀ c ∈ digits, c.isDigit)
    (hne : significantDigits digits ≠ []) :
    10 ^ ((significantDigits digits).length - 1) ≤
      Nat.ofDigitChars 10 (significantDigits digits) 0 := by
  obtain ⟨c, rest, hcons⟩ := List.exists_cons_of_ne_nil hne
  have hdigit := isDigit_of_mem_significantDigits h c (hcons ▸ List.mem_cons_self)
  have hdrop : digits.dropWhile (· == '0') ≠ [] := by
    intro hnil
    simp [significantDigits, hnil] at hne
  have hzero : c ≠ '0' := by
    have hhead := List.head_dropWhile_not (· == '0') hdrop
    have hprefix : c :: rest <+: digits.dropWhile (· == '0') := hcons ▸ List.rdropWhile_prefix _ _
    obtain ⟨tail, htail⟩ := hprefix
    simp only [← htail, List.cons_append, List.head_cons] at hhead
    exact beq_eq_false_iff_ne.mp hhead
  have hpos : 1 ≤ c.toNat - '0'.toNat := by
    have hbounds := (toNat_of_isDigit hdigit).1
    have hvalue : c.toNat ≠ '0'.toNat := fun heq => hzero (Char.toNat_inj.mp heq)
    omega
  rw [hcons, Nat.ofDigitChars_cons, Nat.ofDigitChars_eq_ofDigitChars_zero, Nat.mul_zero,
    Nat.zero_add, List.length_cons, Nat.add_sub_cancel]
  exact (Nat.le_mul_of_pos_right _ hpos).trans (Nat.le_add_right _ _)

/-- The last significant digit is not zero. -/
lemma ofDigitChars_significantDigits_mod (h : ∀ c ∈ digits, c.isDigit)
    (hne : significantDigits digits ≠ []) :
    Nat.ofDigitChars 10 (significantDigits digits) 0 % 10 ≠ 0 := by
  have hlast := List.rdropWhile_last_not (· == '0') (digits.dropWhile (· == '0')) hne
  have hdigit := isDigit_of_mem_significantDigits h _ (List.getLast_mem hne)
  obtain ⟨hge, hlt⟩ := toNat_of_isDigit hdigit
  have hvalue : ((significantDigits digits).getLast hne).toNat ≠ '0'.toNat := fun heq =>
    hlast (beq_iff_eq.mpr (Char.toNat_inj.mp heq))
  rw [← List.dropLast_append_getLast hne, Nat.ofDigitChars_append, Nat.ofDigitChars_cons,
    Nat.ofDigitChars_nil]
  omega

/-- A whole number of powers of ten is written with no more significant digits than it has. -/
lemma length_significantDigits_le {number zeros places : Nat} (h : ∀ c ∈ digits, c.isDigit)
    (hvalue : Nat.ofDigitChars 10 digits 0 = number * 10 ^ zeros) (hlt : number < 10 ^ places) :
    (significantDigits digits).length ≤ places := by
  by_cases hne : significantDigits digits = []
  · simp [hne]
  obtain ⟨more, hmore⟩ := ofDigitChars_significantDigits digits
  have hlower := le_ofDigitChars_significantDigits h hne
  have hlast := ofDigitChars_significantDigits_mod h hne
  rw [hvalue] at hmore
  generalize Nat.ofDigitChars 10 (significantDigits digits) 0 = significand at hmore hlower hlast
  -- The significand does not end in a zero, so the number takes nothing from it.
  have hzeros : zeros ≤ more := by
    by_contra hless
    obtain ⟨extra, rfl⟩ := Nat.exists_eq_add_of_lt (Nat.lt_of_not_le hless)
    have hsignificand : significand = number * 10 ^ extra * 10 := by
      apply Nat.eq_of_mul_eq_mul_right (Nat.pow_pos (n := more) (show 0 < 10 by decide))
      rw [← hmore]
      ring
    omega
  obtain ⟨extra, rfl⟩ := Nat.exists_eq_add_of_le hzeros
  have hnumber : number = significand * 10 ^ extra := by
    apply Nat.eq_of_mul_eq_mul_right (Nat.pow_pos (n := zeros) (show 0 < 10 by decide))
    rw [hmore]
    ring
  have hle : significand ≤ number :=
    hnumber ▸ Nat.le_mul_of_pos_right _ (Nat.pow_pos (by decide))
  have hpow := (Nat.pow_lt_pow_iff_right (by decide)).mp (hlower.trans_lt (hle.trans_lt hlt))
  omega

end Digits

/-- A text of digits around a point, with a minus sign in front or not. -/
structure Numeral where
  negative : Bool
  whole : List Char
  fraction : List Char
  whole_ne_nil : whole ≠ []
  isDigit : ∀ c ∈ whole ++ fraction, c.isDigit

namespace Numeral

def chars (n : Numeral) : List Char :=
  (if n.negative then ['-'] else []) ++ (n.whole ++ '.' :: n.fraction)

def digits (n : Numeral) : List Char := n.whole ++ n.fraction

/-- The number that a numeral denotes, apart from its sign. -/
def magnitude (n : Numeral) : ℚ := Nat.ofDigitChars 10 n.digits 0 / 10 ^ n.fraction.length

def significant (n : Numeral) : Nat := (significantDigits n.digits).length

/-- The magnitude is a whole number, of as many digits as are significant, of some power of ten. -/
lemma exists_decimal (n : Numeral) :
    ∃ d : Decimal, n.magnitude = d.value ∧ d.digits < 10 ^ n.significant := by
  obtain ⟨zeros, hzeros⟩ := ofDigitChars_significantDigits n.digits
  refine ⟨⟨Nat.ofDigitChars 10 (significantDigits n.digits) 0, zeros - n.fraction.length⟩, ?_,
    ofDigitChars_lt (isDigit_of_mem_significantDigits n.isDigit)⟩
  rw [magnitude, hzeros, Decimal.value, zpow_sub₀ (by norm_num), zpow_natCast, zpow_natCast]
  push_cast
  ring

end Numeral

namespace Decimal

/-- The numeral that a decimal is written as. -/
def numeral (negative : Bool) (d : Decimal) : Numeral where
  negative := negative
  whole := Nat.toDigits 10 d.whole
  fraction := lastDigits d.places d.digits
  whole_ne_nil := Nat.toDigits_ne_nil
  isDigit c hc := by
    rcases List.mem_append.mp hc with hwhole | hfraction
    · exact Nat.isDigit_of_mem_toDigits (by decide) (by decide) hwhole
    · exact isDigit_of_mem_lastDigits hfraction

lemma chars_numeral (negative : Bool) (d : Decimal) :
    (d.numeral negative).chars = (if negative then ['-'] else []) ++ d.positional :=
  rfl

lemma ofDigitChars_numeral (negative : Bool) (d : Decimal) :
    Nat.ofDigitChars 10 (d.numeral negative).digits 0 =
      10 ^ d.places * d.whole + d.digits % 10 ^ d.places := by
  rw [Numeral.digits, numeral, Nat.ofDigitChars_append, Nat.ofDigitChars_ten_toDigits,
    Nat.ofDigitChars_eq_ofDigitChars_zero, length_lastDigits, ofDigitChars_lastDigits]

lemma magnitude_numeral (negative : Bool) (d : Decimal) :
    (d.numeral negative).magnitude = d.value := by
  rw [Numeral.magnitude, ofDigitChars_numeral, numeral, length_lastDigits, value_eq]
  push_cast
  field_simp

lemma significant_numeral_le (negative : Bool) {d : Decimal} {places : Nat}
    (h : d.digits < 10 ^ places) : (d.numeral negative).significant ≤ places := by
  have hvalue : Nat.ofDigitChars 10 (d.numeral negative).digits 0 =
      d.digits * 10 ^ d.exponent.toNat := by
    rw [ofDigitChars_numeral]
    obtain ⟨digits, exponent⟩ := d
    cases exponent with
    | ofNat zeros => simp [Decimal.whole, Decimal.places, Nat.mod_one]
    | negSucc n => simp [Decimal.whole, Decimal.places, Nat.div_add_mod]
  exact length_significantDigits_le (d.numeral negative).isDigit hvalue h

end Decimal

end NumericTrees
