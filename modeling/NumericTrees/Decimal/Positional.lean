/-!
# Decimals in positional notation

A decimal is a natural number of digits and a power of ten. It is displayed without an exponent, and
with a point only where it has a fraction; the digits after the point are as many as the power of
ten asks for.
-/

namespace NumericTrees

/-- The decimal `digits * 10 ^ exponent`. -/
structure Decimal where
  digits : Nat
  exponent : Int
  deriving DecidableEq, Repr

namespace Decimal

/-- The last decimal digits of a number, zeros in front included. -/
def lastDigits : (places : Nat) → Nat → List Char
  | 0, _ => []
  | places + 1, n => lastDigits places (n / 10) ++ [Nat.digitChar (n % 10)]

/-- The text of a decimal: its whole digits and, where it has a fraction, a point and the digits of
the fraction. -/
def display (d : Decimal) : List Char :=
  match d.exponent with
  | .ofNat zeros => Nat.toDigits 10 (d.digits * Nat.pow 10 zeros)
  | .negSucc n =>
    let places := n + 1
    Nat.toDigits 10 (d.digits / Nat.pow 10 places) ++ '.' :: lastDigits places d.digits

theorem length_lastDigits (places n : Nat) : (lastDigits places n).length = places := by
  induction places generalizing n with
  | zero => rfl
  | succ places ih => simp [lastDigits, ih]

end Decimal

end NumericTrees
