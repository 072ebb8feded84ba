import NumericTrees.Wire.Reader

/-!
# Numbers of variable length

A natural number is written in groups of seven bits, the lowest first; every byte but the last has
its high bit set. A reader admits numbers of a given width in bits and refuses a group that would
reach beyond it. Signed integers alternate: zero, minus one, one, minus two, and so on.
-/

namespace NumericTrees.Wire

namespace Varint

/-- The bytes of a number. -/
def encode (n : Nat) : List UInt8 :=
  if n < 128 then [UInt8.ofNat n] else UInt8.ofNat (n % 128 + 128) :: encode (n / 128)

/-- The number of at most `width` bits at the front of the bytes, and the bytes behind it. -/
def decode (width : Nat) : List UInt8 → Except DecodeError (Nat × List UInt8)
  | [] => .error .unexpectedEnd
  | b :: rest =>
    if b < 128 then if b.toNat < Nat.pow 2 width then .ok (b.toNat, rest) else .error .badVarint
    else if width ≤ 7 then .error .badVarint
    else
      match decode (width - 7) rest with
      | .ok (high, rest) => .ok (b.toNat % 128 + 128 * high, rest)
      | .error e => .error e

/-- Reads a number of at most `width` bits. -/
def read (width : Nat) : Reader Nat := decode width

end Varint

/-- The place of an integer in the alternating order. -/
def zigzag (n : Int) : Nat := if 0 ≤ n then 2 * n.toNat else 2 * (-n).toNat - 1

/-- The integer at a place of the alternating order. -/
def unzigzag (place : Nat) : Int :=
  if place % 2 = 0 then (place / 2 : Nat) else -((place / 2 + 1 : Nat) : Int)

theorem unzigzag_zigzag (n : Int) : unzigzag (zigzag n) = n := by
  unfold zigzag unzigzag
  split <;> split <;> omega

theorem zigzag_unzigzag (place : Nat) : zigzag (unzigzag place) = place := by
  unfold zigzag unzigzag
  split <;> split <;> omega

end NumericTrees.Wire
