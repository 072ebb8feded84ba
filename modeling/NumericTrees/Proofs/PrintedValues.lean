import NumericTrees.Proofs.Escaping
import NumericTrees.Proofs.FloatTexts
import NumericTrees.Terminal

/-!
# What the text of a value tells

The text of a value tells its type, apart from NaN and the infinities, which have one text for both
widths: quotes are for texts, a point for floating-point numbers, the letters `f` and `L` for
widths, and the words for truth values have letters of their own. Within one type the text tells the
value.
-/

namespace NumericTrees

/-! ### Integers -/

namespace Number

variable {m n : Int} {c : Char}

lemma mem_decimal (h : c ∈ decimal n) : c = '-' ∨ c.isDigit := by
  rcases List.mem_append.mp h with hsign | hdigits
  · split at hsign
    · exact .inl (List.mem_singleton.mp hsign)
    · contradiction
  · exact .inr (Nat.isDigit_of_mem_toDigits (by decide) (by decide) hdigits)

lemma not_mem_decimal (hsign : c ≠ '-') (hdigit : c.isDigit = false) : c ∉ decimal n := by
  intro hmem
  rcases mem_decimal hmem with hminus | hisDigit
  · exact hsign hminus
  · simp [hdigit] at hisDigit

lemma decimal_injective (h : decimal m = decimal n) : m = n := by
  have hplain (k : Nat) : '-' ∉ Nat.toDigits 10 k := fun hmem =>
    absurd (Nat.isDigit_of_mem_toDigits (by decide) (by decide) hmem) (by decide)
  obtain ⟨hsign, hdigits⟩ := eq_of_signed_eq (hplain _) (hplain _) h
  have habs : m.natAbs = n.natAbs := toDigits_injective (by decide) (by decide) hdigits
  omega

end Number

/-! ### Types from texts -/

/-- The type that a text tells, if it tells one. -/
def toldType (text : List Char) : Option ValueType :=
  if '"' ∈ text then some .str
  else if '.' ∈ text then some (.numeric (if 'f' ∈ text then .float32 else .float64))
  else if 'L' ∈ text then some (.numeric .int64)
  else if 'e' ∈ text then some .bool
  else if 'n' ∈ text then none
  else some (.numeric .int32)

lemma toldType_quoted (hidden : Char → Bool) (s : List Char) :
    toldType (Text.quoted hidden s) = some .str :=
  if_pos (by simp [Text.quoted])

lemma toldType_decimal (n : Int) : toldType (Number.decimal n) = some (.numeric .int32) := by
  simp [toldType, Number.not_mem_decimal]

lemma toldType_decimal_append (n : Int) :
    toldType (Number.decimal n ++ ['L']) = some (.numeric .int64) := by
  simp [toldType, Number.not_mem_decimal]

/-! ### Floating-point numbers -/

namespace Binary

variable {f : Format} {x : Binary f}

lemma chars_of_isNaN (suffix : List Char) (h : x.isNaN = true) :
    x.chars suffix = ['n', 'a', 'n'] := by
  simp [chars, h]

lemma chars_of_isInfinite (suffix : List Char) (h : x.isInfinite = true) :
    x.chars suffix = (if x.negative = true then ['-'] else []) ++ ['i', 'n', 'f'] := by
  have hcode : x.code.val = f.infinity := by simpa [isInfinite] using h
  have hnan : x.isNaN = false := decide_eq_false (by omega)
  simp [chars, hnan, h]

lemma isFinite_or_not (x : Binary f) :
    x.isFinite = true ∨ x.isNaN = true ∨ x.isInfinite = true := by
  simp only [isNaN, isInfinite, isFinite, beq_iff_eq, decide_eq_true_eq]
  omega

/-- Apart from the sign, the point and the digits, the text of a finite number is its suffix. -/
lemma mem_chars_iff {suffix : List Char} {c : Char} (h : x.isFinite = true) (hminus : c ≠ '-')
    (hpoint : c ≠ '.') (hdigit : c.isDigit = false) : c ∈ x.chars suffix ↔ c ∈ suffix := by
  have hsign : c ∉ if x.negative = true then ['-'] else [] := by
    split <;> simp [hminus]
  have hpositional : c ∉ x.shortest.positional := by
    intro hmem
    rcases Decimal.mem_positional hmem with hc | hc
    · exact hpoint hc
    · simp [hdigit] at hc
  rw [chars_of_finite suffix h, List.mem_append, List.mem_append]
  simp only [hsign, hpositional, false_or]

lemma point_mem_chars (suffix : List Char) (h : x.isFinite = true) : '.' ∈ x.chars suffix := by
  rw [chars_of_finite suffix h, Decimal.positional]
  simp

lemma toldType_finite (h : x.isFinite = true) {suffix : List Char} (hquote : '"' ∉ suffix) :
    toldType (x.chars suffix) = some (.numeric (if 'f' ∈ suffix then .float32 else .float64)) := by
  have hquote' : '"' ∉ x.chars suffix := by
    rwa [mem_chars_iff h (by decide) (by decide) (by decide)]
  have hf : 'f' ∈ x.chars suffix ↔ 'f' ∈ suffix :=
    mem_chars_iff h (by decide) (by decide) (by decide)
  rw [toldType, if_neg hquote', if_pos (point_mem_chars suffix h)]
  simp only [hf]

end Binary

/-! ### Values -/

namespace Value

variable {v w : Value}

/-- The value is a NaN, of either width. -/
def isNaN : Value → Bool
  | number (.float32 x) => x.isNaN
  | number (.float64 x) => x.isNaN
  | _ => false

/-- The value is the infinity with the given sign, of either width. -/
def isInfinity (negative : Bool) : Value → Bool
  | number (.float32 x) => x.isInfinite && x.negative == negative
  | number (.float64 x) => x.isInfinite && x.negative == negative
  | _ => false

def charsWith (hidden : Char → Bool) : Value → List Char
  | str s => Text.quoted hidden s.toList
  | number n => (number n).chars
  | bool b => (bool b).chars

lemma charsWith_float32 (hidden : Char → Bool) (x : Single) :
    (number (.float32 x)).charsWith hidden = x.chars ['f'] := Number.chars_float32 x

lemma charsWith_float64 (hidden : Char → Bool) (x : Double) :
    (number (.float64 x)).charsWith hidden = x.chars [] := Number.chars_float64 x

/-- The text of a value that writes the characters in `hidden` as code points. -/
def textWith (hidden : Char → Bool) (v : Value) : String := String.ofList (v.charsWith hidden)

lemma textWith_isHidden (v : Value) : v.textWith Text.isHidden = v.text := by
  cases v <;> rfl

lemma charsWith_of_isNaN (hidden : Char → Bool) (h : v.isNaN = true) :
    v.charsWith hidden = ['n', 'a', 'n'] := by
  match v, h with
  | number (.float32 x), h => rw [charsWith_float32, Binary.chars_of_isNaN _ h]
  | number (.float64 x), h => rw [charsWith_float64, Binary.chars_of_isNaN _ h]

lemma charsWith_of_isInfinity (hidden : Char → Bool) {negative : Bool}
    (h : v.isInfinity negative = true) :
    v.charsWith hidden = (if negative = true then ['-'] else []) ++ ['i', 'n', 'f'] := by
  match v, h with
  | number (.float32 x), h =>
    obtain ⟨hinfinite, hsign⟩ := Bool.and_eq_true_iff.mp h
    rw [← eq_of_beq hsign, charsWith_float32]
    exact Binary.chars_of_isInfinite _ hinfinite
  | number (.float64 x), h =>
    obtain ⟨hinfinite, hsign⟩ := Bool.and_eq_true_iff.mp h
    rw [← eq_of_beq hsign, charsWith_float64]
    exact Binary.chars_of_isInfinite _ hinfinite

/-- The value is neither a NaN nor infinite. -/
def isPlain : Value → Bool
  | number (.float32 x) => x.isFinite
  | number (.float64 x) => x.isFinite
  | _ => true

lemma isPlain_or_not (v : Value) :
    v.isPlain = true ∨ v.isNaN = true ∨ ∃ negative, v.isInfinity negative = true := by
  match v with
  | number (.float32 x) => simpa [isPlain, isNaN, isInfinity] using x.isFinite_or_not
  | number (.float64 x) => simpa [isPlain, isNaN, isInfinity] using x.isFinite_or_not
  | number (.int32 n) => exact .inl rfl
  | number (.int64 n) => exact .inl rfl
  | bool b => exact .inl rfl
  | str s => exact .inl rfl

lemma toldType_of_isPlain (hidden : Char → Bool) (h : v.isPlain = true) :
    toldType (v.charsWith hidden) = some v.type := by
  match v, h with
  | number (.int32 n), _ => exact toldType_decimal _
  | number (.int64 n), _ => exact toldType_decimal_append _
  | number (.float32 x), h =>
    rw [charsWith_float32]
    exact Binary.toldType_finite h (by decide)
  | number (.float64 x), h =>
    rw [charsWith_float64]
    exact Binary.toldType_finite h (by decide)
  | bool true, _ => rfl
  | bool false, _ => rfl
  | str s, _ => exact toldType_quoted hidden s.toList

lemma toldType_of_isNaN (hidden : Char → Bool) (h : v.isNaN = true) :
    toldType (v.charsWith hidden) = none := by
  rw [charsWith_of_isNaN hidden h]
  rfl

lemma toldType_of_isInfinity (hidden : Char → Bool) {negative : Bool}
    (h : v.isInfinity negative = true) : toldType (v.charsWith hidden) = none := by
  rw [charsWith_of_isInfinity hidden h]
  cases negative <;> rfl

lemma isPlain_of_toldType {hidden : Char → Bool} {type : ValueType}
    (h : toldType (v.charsWith hidden) = some type) : v.isPlain = true := by
  rcases v.isPlain_or_not with hplain | hnan | ⟨negative, hinfinite⟩
  · exact hplain
  · rw [toldType_of_isNaN hidden hnan] at h
    contradiction
  · rw [toldType_of_isInfinity hidden hinfinite] at h
    contradiction

lemma eq_of_charsWith_eq {hidden : Char → Bool} (hv : v.isPlain = true) (hw : w.isPlain = true)
    (htype : v.type = w.type) (h : v.charsWith hidden = w.charsWith hidden) : v = w := by
  rcases v with (m | m | x | x) | b | s <;> rcases w with (n | n | y | y) | b' | t <;>
    simp [type, Number.kind] at htype
  · rw [Int32.toInt_inj.mp (Number.decimal_injective h)]
  · rw [Int64.toInt_inj.mp (Number.decimal_injective (List.append_cancel_right h))]
  · rw [charsWith_float32, charsWith_float32] at h
    rw [Binary.eq_of_chars_eq hv hw h]
  · rw [charsWith_float64, charsWith_float64] at h
    rw [Binary.eq_of_chars_eq hv hw h]
  · cases b <;> cases b' <;> first | rfl | cases h
  · rw [String.toList_inj.mp (Text.quoted_injective hidden h)]

lemma textWith_eq_iff (hidden : Char → Bool) (v w : Value) :
    v.textWith hidden = w.textWith hidden ↔
      v = w ∨ (v.isNaN = true ∧ w.isNaN = true) ∨
        ∃ negative, v.isInfinity negative = true ∧ w.isInfinity negative = true := by
  constructor
  · intro h
    have hchars : v.charsWith hidden = w.charsWith hidden := String.ofList_inj.mp h
    have htold := congrArg toldType hchars
    -- Only plain values have texts that tell a type, so that both values are plain or neither is.
    by_cases hplain : v.isPlain = true
    · rw [toldType_of_isPlain hidden hplain] at htold
      have hplain' : w.isPlain = true := isPlain_of_toldType htold.symm
      rw [toldType_of_isPlain hidden hplain'] at htold
      exact .inl (eq_of_charsWith_eq hplain hplain' (Option.some.inj htold) hchars)
    · have hplain' : ¬ w.isPlain = true := by
        intro hplain'
        rw [toldType_of_isPlain hidden hplain'] at htold
        exact hplain (isPlain_of_toldType htold)
      rcases v.isPlain_or_not.resolve_left hplain with hv | ⟨negative, hv⟩ <;>
        rcases w.isPlain_or_not.resolve_left hplain' with hw | ⟨negative', hw⟩
      · exact .inr (.inl ⟨hv, hw⟩)
      · rw [charsWith_of_isNaN hidden hv, charsWith_of_isInfinity hidden hw] at hchars
        cases negative' <;> contradiction
      · rw [charsWith_of_isInfinity hidden hv, charsWith_of_isNaN hidden hw] at hchars
        cases negative <;> contradiction
      · rw [charsWith_of_isInfinity hidden hv, charsWith_of_isInfinity hidden hw] at hchars
        have hsign : negative = negative' := by
          revert hchars
          cases negative <;> cases negative' <;> decide
        exact .inr (.inr ⟨negative, hv, hsign ▸ hw⟩)
  · rintro (rfl | ⟨hv, hw⟩ | ⟨negative, hv, hw⟩)
    · rfl
    · rw [textWith, textWith, charsWith_of_isNaN hidden hv, charsWith_of_isNaN hidden hw]
    · rw [textWith, textWith, charsWith_of_isInfinity hidden hv, charsWith_of_isInfinity hidden hw]

lemma textWith_eq_nan_iff (hidden : Char → Bool) (v : Value) :
    v.textWith hidden = "nan" ↔ v.isNaN = true := by
  have hnan : (number (.float64 .nan)).isNaN = true := by decide
  have htext : (number (.float64 .nan)).textWith hidden = "nan" := by
    rw [textWith, charsWith_of_isNaN hidden hnan]
  have hinfinite (negative : Bool) : (number (.float64 .nan)).isInfinity negative = false := by
    cases negative <;> decide
  rw [← htext, textWith_eq_iff]
  constructor
  · rintro (rfl | ⟨hv, -⟩ | ⟨negative, -, hnegative⟩)
    · exact hnan
    · exact hv
    · rw [hinfinite] at hnegative
      contradiction
  · exact fun hv => .inr (.inl ⟨hv, hnan⟩)

lemma textWith_eq_infinity_iff (hidden : Char → Bool) (v : Value) (negative : Bool) :
    v.textWith hidden = (if negative = true then "-inf" else "inf") ↔
      v.isInfinity negative = true := by
  have hinfinity : (number (.float64 (.infinity negative))).isInfinity negative = true := by
    cases negative <;> decide
  have hnan : (number (.float64 (.infinity negative))).isNaN = false := by
    cases negative <;> decide
  have htext : (number (.float64 (.infinity negative))).textWith hidden =
      if negative = true then "-inf" else "inf" := by
    rw [textWith, charsWith_of_isInfinity hidden hinfinity]
    cases negative <;> rfl
  rw [← htext, textWith_eq_iff]
  constructor
  · rintro (rfl | ⟨-, hw⟩ | ⟨sign, hv, hsign⟩)
    · exact hinfinity
    · rw [hnan] at hw
      contradiction
    · simp only [isInfinity, Bool.and_eq_true, beq_iff_eq] at hsign
      have hsame : negative = sign := hsign.2
      rw [hsame]
      exact hv
  · exact fun hv => .inr (.inr ⟨negative, hv, hinfinity⟩)

/-- Printed values are unambiguous, whatever characters are written as code points. Two values share
a text only when they are the same, floating-point numbers bit for bit, or both are NaNs, or both
are infinities with one sign; and these print as `nan`, `inf` and `-inf`. The identifier of a
literal is the text of its value. -/
theorem text_tells_value (hidden : Char → Bool) (v w : Value) :
    (v.textWith hidden = w.textWith hidden ↔
      v = w ∨ (v.isNaN = true ∧ w.isNaN = true) ∨
        ∃ negative, v.isInfinity negative = true ∧ w.isInfinity negative = true) ∧
    (v.textWith hidden = "nan" ↔ v.isNaN = true) ∧
    (∀ negative, v.textWith hidden = (if negative = true then "-inf" else "inf") ↔
      v.isInfinity negative = true) ∧
    (Terminal.literal ⟨v⟩).identifier = v.textWith Text.isHidden :=
  ⟨textWith_eq_iff hidden v w, textWith_eq_nan_iff hidden v, textWith_eq_infinity_iff hidden v,
    v.textWith_isHidden.symm⟩

example : (number (.float32 (.zero true))).text = "-0.f" := by decide +kernel

end Value

end NumericTrees
