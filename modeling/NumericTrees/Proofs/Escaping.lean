import NumericTrees.Proofs.DecimalText
import NumericTrees.Text.Quoted

/-!
# Reading quoted texts

A quoted text can be read from left to right in one way only. Each character stands for itself, or
as a backslash with a letter of its own, or as its code point in braces, and what comes first tells
which of the three it is. This does not depend on which characters are hidden.
-/

namespace NumericTrees.Text

variable {hidden : Char → Bool} {c d letter letter' : Char} {rest rest' : List Char}

/-- The characters that stand behind a backslash, each with its letter. -/
def escapes : List (Char × Char) :=
  [('\x00', '0'), ('\t', 't'), ('\r', 'r'), ('\n', 'n'), ('"', '"'), ('\\', '\\')]

lemma eq_of_letter_eq (hc : (c, letter) ∈ escapes) (hd : (d, letter) ∈ escapes) : c = d := by
  have hall : ∀ p ∈ escapes, ∀ q ∈ escapes, p.2 = q.2 → p.1 = q.1 := by decide
  exact hall _ hc _ hd rfl

lemma letter_ne_u (h : (c, letter) ∈ escapes) : letter ≠ 'u' := by
  have hall : ∀ p ∈ escapes, p.2 ≠ 'u' := by decide
  exact hall _ h

/-- The three forms of a character in a quoted text. -/
lemma quotedChar_forms (hidden : Char → Bool) (c : Char) :
    (∃ letter, (c, letter) ∈ escapes ∧ quotedChar hidden c = ['\\', letter]) ∨
      quotedChar hidden c = codePoint c ∨ quotedChar hidden c = [c] ∧ c ≠ '\\' ∧ c ≠ '"' := by
  by_cases hescape : ∃ letter, (c, letter) ∈ escapes
  · obtain ⟨letter, hmem⟩ := hescape
    refine .inl ⟨letter, hmem, ?_⟩
    have hall : ∀ p ∈ escapes, quotedChar hidden p.1 = ['\\', p.2] := by simp [escapes, quotedChar]
    exact hall _ hmem
  · have hplain : c ≠ '\x00' ∧ c ≠ '\t' ∧ c ≠ '\r' ∧ c ≠ '\n' ∧ c ≠ '"' ∧ c ≠ '\\' := by
      refine ⟨?_, ?_, ?_, ?_, ?_, ?_⟩ <;> rintro rfl <;> exact hescape ⟨_, by simp [escapes]; rfl⟩
    obtain ⟨hnull, htab, hreturn, hline, hquote, hslash⟩ := hplain
    have hform : quotedChar hidden c = if hidden c then codePoint c else [c] := by
      simp [quotedChar, hnull, htab, hreturn, hline, hquote, hslash]
    split at hform
    · exact .inr (.inl hform)
    · exact .inr (.inr ⟨hform, hslash, hquote⟩)

lemma brace_not_mem_toDigits (n : Nat) : '}' ∉ Nat.toDigits 16 n := by
  intro h
  obtain ⟨digit, hlt, hbrace⟩ := exists_digit_of_mem_toDigits (by decide) h
  have hall : ∀ i < 16, '}' ≠ Nat.digitChar i := by decide
  exact hall digit hlt hbrace

lemma codePoint_append_inj (h : codePoint c ++ rest = codePoint d ++ rest') :
    c = d ∧ rest = rest' := by
  have hbraces : Nat.toDigits 16 c.toNat ++ '}' :: rest =
      Nat.toDigits 16 d.toNat ++ '}' :: rest' := by
    simpa [codePoint] using h
  obtain ⟨hdigits, hrest⟩ := eq_of_append_mark_eq (brace_not_mem_toDigits _)
    (brace_not_mem_toDigits _) hbraces
  exact ⟨Char.toNat_inj.mp (toDigits_injective (by decide) (by decide) hdigits), hrest⟩

/-- The first character of a quoted text can be read off, with what follows it. -/
lemma quotedChar_append_inj (h : quotedChar hidden c ++ rest = quotedChar hidden d ++ rest') :
    c = d ∧ rest = rest' := by
  rcases quotedChar_forms hidden c with ⟨letter, hmem, hc⟩ | hc | ⟨hc, hslash, -⟩ <;>
    rcases quotedChar_forms hidden d with ⟨letter', hmem', hd⟩ | hd | ⟨hd, hslash', -⟩ <;>
    rw [hc, hd] at h
  -- Different forms differ in their first character, or in their second one where the letter of an
  -- escape would have to announce a code point.
  · obtain ⟨rfl, hrest⟩ : letter = letter' ∧ rest = rest' := by simpa using h
    exact ⟨eq_of_letter_eq hmem hmem', hrest⟩
  · have hu : letter = 'u' := (List.cons.inj (List.cons.inj h).2).1
    exact absurd hu (letter_ne_u hmem)
  · have hfirst : '\\' = d := (List.cons.inj h).1
    exact absurd hfirst.symm hslash'
  · have hu : 'u' = letter' := (List.cons.inj (List.cons.inj h).2).1
    exact absurd hu.symm (letter_ne_u hmem')
  · exact codePoint_append_inj h
  · have hfirst : '\\' = d := (List.cons.inj h).1
    exact absurd hfirst.symm hslash'
  · have hfirst : c = '\\' := (List.cons.inj h).1
    exact absurd hfirst hslash
  · have hfirst : c = '\\' := (List.cons.inj h).1
    exact absurd hfirst hslash
  · exact List.cons.inj h

lemma quotedChar_append_ne_quote (hidden : Char → Bool) (c : Char) (rest : List Char) :
    quotedChar hidden c ++ rest ≠ ['"'] := by
  intro h
  rcases quotedChar_forms hidden c with ⟨letter, hmem, hc⟩ | hc | ⟨hc, -, hquote⟩ <;> rw [hc] at h
  · exact absurd (List.cons.inj h).1 (by decide)
  · exact absurd (List.cons.inj h).1 (by decide)
  · exact hquote (List.cons.inj h).1

lemma eq_of_quotedBody_eq {s t : List Char}
    (h : s.flatMap (quotedChar hidden) ++ ['"'] = t.flatMap (quotedChar hidden) ++ ['"']) :
    s = t := by
  induction s generalizing t with
  | nil =>
    cases t with
    | nil => rfl
    | cons d t =>
      rw [List.flatMap_nil, List.nil_append, List.flatMap_cons, List.append_assoc] at h
      exact absurd h.symm (quotedChar_append_ne_quote hidden d _)
  | cons c s ih =>
    cases t with
    | nil =>
      rw [List.flatMap_nil, List.nil_append, List.flatMap_cons, List.append_assoc] at h
      exact absurd h (quotedChar_append_ne_quote hidden c _)
    | cons d t =>
      rw [List.flatMap_cons, List.flatMap_cons, List.append_assoc, List.append_assoc] at h
      obtain ⟨hhead, htail⟩ := quotedChar_append_inj h
      rw [hhead, ih htail]

/-- Quoted texts are told apart, whatever characters are hidden. -/
theorem quoted_injective (hidden : Char → Bool) {s t : List Char}
    (h : quoted hidden s = quoted hidden t) : s = t :=
  eq_of_quotedBody_eq (List.cons.inj h).2

end NumericTrees.Text
