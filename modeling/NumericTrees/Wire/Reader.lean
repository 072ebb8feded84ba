/-!
# Reading from byte sequences

A reader takes what it needs from the front of a sequence of bytes and leaves the rest. It fails
with the first cause that stands in its way.
-/

namespace NumericTrees.Wire

/-- Why no item can be read from the front of a sequence of bytes. -/
inductive DecodeError where
  /-- The bytes end within the item. -/
  | unexpectedEnd
  /-- A number goes on beyond its width. -/
  | badVarint
  /-- A truth value is neither zero nor one. -/
  | badBool
  /-- A text is not UTF-8. -/
  | badText
  /-- An alternative has no such number. -/
  | unknownVariant
  deriving DecidableEq

def DecodeError.message : DecodeError → String
  | unexpectedEnd => "Hit the end of buffer, expected more data"
  | badVarint => "Found a varint that didn't terminate. Is the usize too big for this platform?"
  | badBool => "Found a bool that wasn't 0 or 1"
  | badText => "Tried to parse invalid utf-8"
  | unknownVariant => "Serde Deserialization Error"

/-- Reads from the front of a sequence of bytes and leaves the rest. -/
abbrev Reader (α : Type) := StateT (List UInt8) (Except DecodeError) α

namespace Reader

/-- Reads one byte. -/
def byte : Reader UInt8 := fun bytes =>
  match bytes with
  | [] => .error .unexpectedEnd
  | b :: rest => .ok (b, rest)

/-- Reads the given number of bytes. -/
def take (count : Nat) : Reader (List UInt8) := fun bytes =>
  if count ≤ bytes.length then .ok (bytes.take count, bytes.drop count) else .error .unexpectedEnd

end Reader

/-- Bytes of a number, least first. -/
def littleEndian : (count : Nat) → Nat → List UInt8
  | 0, _ => []
  | count + 1, n => UInt8.ofNat n :: littleEndian count (n / 256)

/-- The number whose bytes, least first, are given. -/
def ofLittleEndian : List UInt8 → Nat
  | [] => 0
  | b :: rest => b.toNat + 256 * ofLittleEndian rest

@[simp] theorem length_littleEndian (count n : Nat) : (littleEndian count n).length = count := by
  induction count generalizing n with
  | zero => rfl
  | succ count ih => simp [littleEndian, ih]

/-- A number that fits is given by its bytes. -/
theorem ofLittleEndian_littleEndian (count n : Nat) (h : n < Nat.pow 256 count) :
    ofLittleEndian (littleEndian count n) = n := by
  induction count generalizing n with
  | zero =>
    exact (Nat.lt_one_iff.mp h).symm
  | succ count ih =>
    have hdiv : n / 256 < Nat.pow 256 count := by
      rw [Nat.div_lt_iff_lt_mul (by decide)]
      exact h
    simp only [littleEndian, ofLittleEndian, ih _ hdiv, UInt8.toNat_ofNat']
    omega

end NumericTrees.Wire
