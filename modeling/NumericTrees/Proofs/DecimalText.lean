import Mathlib.Algebra.Field.Rat
import Mathlib.Data.Nat.Cast.Field
import Mathlib.Tactic.FieldSimp
import Mathlib.Tactic.Lemma
import Mathlib.Tactic.NormNum
import Mathlib.Tactic.Ring
import NumericTrees.Decimal.Positional

/-!
# Texts made of digits

Whole numbers written in a base that has enough digits are told apart by their texts. A decimal in
positional notation splits at its point, and what stands on the two sides of the point determines
the number that the decimal denotes.
-/

namespace NumericTrees

/-! ### Texts with a separator -/

/-- A text splits in one way at a mark that does not occur before it. -/
lemma eq_of_append_mark_eq {before before' after after' : List Char} {mark : Char}
    (hbefore : mark ∉ before) (hbefore' : mark ∉ before')
    (h : before ++ mark :: after = before' ++ mark :: after') :
    before = before' ∧ after = after' := by
  induction before generalizing before' with
  | nil =>
    cases before' with
    | nil => exact ⟨rfl, (List.cons.inj h).2⟩
    | cons c rest =>
      have hmark : mark = c := (List.cons.inj h).1
      exact absurd (hmark ▸ List.mem_cons_self) hbefore'
  | cons c rest ih =>
    cases before' with
    | nil =>
      have hmark : c = mark := (List.cons.inj h).1
      exact absurd (hmark ▸ List.mem_cons_self) hbefore
    | cons c' rest' =>
      obtain ⟨hhead, htail⟩ := List.cons.inj h
      have hrest := ih (fun hmem => hbefore (List.mem_cons_of_mem _ hmem))
        (fun hmem => hbefore' (List.mem_cons_of_mem _ hmem)) htail
      exact ⟨by rw [hhead, hrest.1], hrest.2⟩

lemma eq_of_signed_eq {p q : Prop} [Decidable p] [Decidable q] {a b : List Char} (ha : '-' ∉ a)
    (hb : '-' ∉ b) (h : (if p then ['-'] else []) ++ a = (if q then ['-'] else []) ++ b) :
    (p ↔ q) ∧ a = b := by
  by_cases hp : p <;> by_cases hq : q <;>
    simp only [hp, hq, if_true, if_false, List.singleton_append, List.nil_append] at h
  · exact ⟨iff_of_true hp hq, (List.cons.inj h).2⟩
  · exact absurd (h ▸ List.mem_cons_self) hb
  · exact absurd (h ▸ List.mem_cons_self) ha
  · exact ⟨iff_of_false hp hq, h⟩

/-! ### Whole numbers -/

section Digits

variable {base m n : Nat} {c : Char}

lemma digitChar_injective (hm : m < 16) (hn : n < 16) (h : m.digitChar = n.digitChar) : m = n := by
  have hall : ∀ i < 16, ∀ j < 16, Nat.digitChar i = Nat.digitChar j → i = j := by decide
  exact hall m hm n hn h

lemma exists_digit_of_mem_toDigits (hbase : 1 < base) (h : c ∈ Nat.toDigits base n) :
    ∃ d < base, c = d.digitChar := by
  induction n using Nat.strong_induction_on with
  | _ n ih =>
    have hpos : 0 < base := by omega
    rw [Nat.toDigits_eq_if hbase] at h
    split at h
    · exact ⟨n, ‹_›, List.mem_singleton.mp h⟩
    · rcases List.mem_append.mp h with hfront | hlast
      · exact ih (n / base) (Nat.div_lt_self (by omega) hbase) hfront
      · exact ⟨n % base, Nat.mod_lt _ hpos, List.mem_singleton.mp hlast⟩

/-- A number is given by its digits, in every base up to sixteen. -/
lemma toDigits_injective (hbase : 1 < base) (hle : base ≤ 16)
    (h : Nat.toDigits base m = Nat.toDigits base n) : m = n := by
  have hpos : 0 < base := by omega
  induction m using Nat.strong_induction_on generalizing n with
  | _ m ih =>
    rw [Nat.toDigits_eq_if hbase, Nat.toDigits_eq_if (n := n) hbase] at h
    split at h <;> split at h
    · exact digitChar_injective (by omega) (by omega) (List.singleton_inj.mp h)
    -- A single digit is not the text of a number that has several.
    · have hlength := congrArg List.length h
      simp at hlength
    · have hlength := congrArg List.length h
      simp at hlength
    · obtain ⟨hfront, hlast⟩ := List.append_inj' h rfl
      have hdiv : m / base = n / base := ih _ (Nat.div_lt_self (by omega) hbase) hfront
      have hmod : m % base = n % base := by
        have hm := Nat.mod_lt m hpos
        have hn := Nat.mod_lt n hpos
        exact digitChar_injective (by omega) (by omega) (List.singleton_inj.mp hlast)
      rw [← Nat.div_add_mod m base, ← Nat.div_add_mod n base, hdiv, hmod]

end Digits

/-! ### Decimals -/

namespace Decimal

variable {d e : Decimal} {n : Nat} {c : Char}

/-- The number that a decimal denotes. -/
def value (d : Decimal) : ℚ := d.digits * 10 ^ d.exponent

/-- The part of a decimal in front of its point. -/
def whole (d : Decimal) : Nat :=
  match d.exponent with
  | .ofNat zeros => d.digits * 10 ^ zeros
  | .negSucc n => d.digits / 10 ^ (n + 1)

/-- The number of digits behind the point. -/
def places (d : Decimal) : Nat :=
  match d.exponent with
  | .ofNat _ => 0
  | .negSucc n => n + 1

/-- The text of a decimal that has a point in any case. -/
def positional (d : Decimal) : List Char :=
  Nat.toDigits 10 d.whole ++ '.' :: lastDigits d.places d.digits

lemma value_eq (d : Decimal) :
    d.value = d.whole + ((d.digits % 10 ^ d.places : Nat) : ℚ) / 10 ^ d.places := by
  obtain ⟨digits, exponent⟩ := d
  cases exponent with
  | ofNat zeros => simp [value, whole, places, Nat.mod_one]
  | negSucc n =>
    have hsplit : (digits : ℚ) = 10 ^ (n + 1) * (digits / 10 ^ (n + 1) : Nat) +
        (digits % 10 ^ (n + 1) : Nat) := by
      exact_mod_cast (Nat.div_add_mod digits (10 ^ (n + 1))).symm
    simp only [value, whole, places, zpow_negSucc]
    rw [hsplit]
    field_simp

lemma isDigit_of_mem_lastDigits {places : Nat} (h : c ∈ lastDigits places n) : c.isDigit := by
  induction places generalizing n with
  | zero => simp [lastDigits] at h
  | succ places ih =>
    rcases List.mem_append.mp h with hfront | hlast
    · exact ih hfront
    · rw [List.mem_singleton.mp hlast, Nat.isDigit_digitChar]
      exact decide_eq_true (Nat.mod_lt _ (by decide))

lemma ofDigitChars_lastDigits (places n : Nat) :
    Nat.ofDigitChars 10 (lastDigits places n) 0 = n % 10 ^ places := by
  induction places generalizing n with
  | zero => simp [lastDigits, Nat.mod_one]
  | succ places ih =>
    have hlast : n % 10 < 10 := Nat.mod_lt _ (by decide)
    rw [lastDigits, Nat.ofDigitChars_append, ih, Nat.ofDigitChars_cons_digitChar_of_lt_ten hlast,
      Nat.ofDigitChars_nil, Nat.pow_succ', Nat.mod_mul]
    omega

lemma point_not_mem_whole (d : Decimal) : '.' ∉ Nat.toDigits 10 d.whole := by
  intro h
  have hdigit := Nat.isDigit_of_mem_toDigits (by decide) (by decide) h
  exact absurd hdigit (by decide)

lemma mem_positional (h : c ∈ d.positional) : c = '.' ∨ c.isDigit := by
  rw [positional] at h
  rcases List.mem_append.mp h with hwhole | hrest
  · exact .inr (Nat.isDigit_of_mem_toDigits (by decide) (by decide) hwhole)
  · rcases List.mem_cons.mp hrest with hpoint | hplaces
    · exact .inl hpoint
    · exact .inr (isDigit_of_mem_lastDigits hplaces)

/-- The point is missing from the displayed text of a decimal exactly where nothing is behind it. -/
lemma positional_eq (d : Decimal) :
    d.positional = if '.' ∈ d.display then d.display else d.display ++ ['.'] := by
  obtain ⟨digits, exponent⟩ := d
  cases exponent with
  | ofNat zeros =>
    have hpoint : '.' ∉ Nat.toDigits 10 (digits * 10 ^ zeros) :=
      point_not_mem_whole ⟨digits, .ofNat zeros⟩
    exact (if_neg hpoint).symm
  | negSucc n =>
    have hpoint : '.' ∈ (⟨digits, .negSucc n⟩ : Decimal).display := by simp [display]
    rw [if_pos hpoint]
    rfl

lemma mem_display (h : c ∈ d.display) : c = '.' ∨ c.isDigit := by
  apply mem_positional
  rw [positional_eq]
  split
  · exact h
  · exact List.mem_append_left _ h

lemma minus_not_mem_positional (d : Decimal) : '-' ∉ d.positional := by
  intro h
  rcases mem_positional h with hpoint | hdigit
  · exact absurd hpoint (by decide)
  · exact absurd hdigit (by decide)

/-- Decimals with one text denote one number. -/
lemma value_eq_of_positional_eq (h : d.positional = e.positional) : d.value = e.value := by
  rw [positional, positional] at h
  obtain ⟨hwhole, hfraction⟩ :=
    eq_of_append_mark_eq d.point_not_mem_whole e.point_not_mem_whole h
  have hplaces : d.places = e.places := by
    rw [← length_lastDigits d.places d.digits, hfraction, length_lastDigits]
  have hremainder := congrArg (Nat.ofDigitChars 10 · 0) hfraction
  simp only [ofDigitChars_lastDigits] at hremainder
  rw [value_eq, value_eq, toDigits_injective (by decide) (by decide) hwhole, hremainder, hplaces]

end Decimal

end NumericTrees
