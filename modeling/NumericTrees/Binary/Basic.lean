import NumericTrees.Binary.Rounding

/-!
# Binary floating-point numbers

A number is a sign and a code, so that two numbers are the same exactly when their bits are: the
two zeros differ, and so do NaNs with different payloads. `equals` is the equality of arithmetic,
under which the zeros are equal and a NaN equals nothing.
-/

namespace NumericTrees

/-- A floating-point number given by its sign and the code of its magnitude. -/
structure Binary (f : Format) where
  negative : Bool
  code : Fin f.codes
  deriving DecidableEq

/-- Numbers of 32 bits. -/
abbrev Single := Binary .single

/-- Numbers of 64 bits. -/
abbrev Double := Binary .double

namespace Binary

variable {f : Format}

/-- The number whose word is `bits`; bits above the width of the format are ignored. -/
def ofBits (bits : Nat) : Binary f where
  negative := bits / f.codes % 2 == 1
  code := ⟨bits % f.codes, Nat.mod_lt _ (Nat.two_pow_pos _)⟩

/-- The word of a number. -/
def toBits (x : Binary f) : Nat := (if x.negative then f.codes else 0) + x.code

/-- Zero with the given sign. -/
def zero (negative : Bool) : Binary f := ⟨negative, ⟨0, Nat.two_pow_pos _⟩⟩

/-- Infinity with the given sign. -/
def infinity (negative : Bool) : Binary f := ⟨negative, ⟨f.infinity, f.infinity_lt_codes⟩⟩

/-- The NaN that operations answer. -/
def nan : Binary f where
  negative := false
  code := ⟨f.infinity + Nat.pow 2 (f.fractionBits - 1), by
    have hlt : Nat.pow 2 (f.fractionBits - 1) < f.hidden :=
      Nat.pow_lt_pow_right (by decide) (Nat.sub_lt f.fractionBits_pos (by decide))
    have h := f.infinity_add_hidden
    omega⟩

/-- Whether a number is no number at all. -/
def isNaN (x : Binary f) : Bool := f.infinity < x.code

/-- Whether a number is a NaN whose fraction lacks its highest bit. -/
def isSignaling (x : Binary f) : Bool := x.isNaN && x.code.val < (nan : Binary f).code.val

def isInfinite (x : Binary f) : Bool := x.code.val == f.infinity

def isFinite (x : Binary f) : Bool := x.code < f.infinity

/-- Both zeros are zero. -/
def isZero (x : Binary f) : Bool := x.code.val == 0

/-- The magnitude of a finite number, in units. -/
def units (x : Binary f) : Nat := f.units x.code

/-- The number with the other sign. -/
def neg (x : Binary f) : Binary f := { x with negative := !x.negative }

/-- The place of a number that is not NaN in the order of numbers; the zeros share a place. -/
def key (x : Binary f) : Int := if x.negative then -(x.code.val : Int) else x.code.val

/-- Equality of numbers: a NaN equals nothing, and the zeros are equal. -/
def equals (x y : Binary f) : Bool := !x.isNaN && !y.isNaN && x.key == y.key

/-- The number nearest to `num / den` units, with the given sign. -/
def ofUnits (negative : Bool) (num den : Nat) : Binary f :=
  ⟨negative, ⟨f.nearest num den, f.nearest_lt_codes num den⟩⟩

theorem toBits_lt (x : Binary f) : x.toBits < 2 * f.codes := by
  have h := x.code.isLt
  unfold toBits
  split <;> omega

/-- A number is given by its word. -/
theorem ofBits_toBits (x : Binary f) : ofBits x.toBits = x := by
  obtain ⟨negative, code⟩ := x
  have hpos : 0 < f.codes := Nat.two_pow_pos _
  have hlt := code.isLt
  cases negative with
  | false => simp [ofBits, toBits, Nat.div_eq_of_lt hlt, Nat.mod_eq_of_lt hlt]
  | true =>
    have hdiv : (f.codes + code.val) / f.codes = 1 := by
      rw [Nat.add_div_left _ hpos, Nat.div_eq_of_lt hlt]
    simp [ofBits, toBits, hdiv, Nat.mod_eq_of_lt hlt]

end Binary

end NumericTrees
