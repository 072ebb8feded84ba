import NumericTrees.Binary.Basic

/-!
# Arithmetic of floating-point numbers

The product and the quotient of finite numbers are the exact ones, rounded once. The power of
doubles is the one of the platform's mathematics library, except where an operand decides it alone.
-/

namespace NumericTrees.Binary

variable {f : Format}

/-- The product. Zero times infinity is NaN. -/
def mul (x y : Binary f) : Binary f :=
  let negative := x.negative != y.negative
  if x.isNaN || y.isNaN then nan
  else if x.isInfinite || y.isInfinite then
    if x.isZero || y.isZero then nan else infinity negative
  else ofUnits negative (x.units * y.units) (Nat.pow 2 f.scale)

/-- The quotient. Zero by zero and infinity by infinity are NaN; any other number by zero is
infinite. -/
def div (x y : Binary f) : Binary f :=
  let negative := x.negative != y.negative
  if x.isNaN || y.isNaN then nan
  else if x.isInfinite then if y.isInfinite then nan else infinity negative
  else if y.isInfinite then zero negative
  else if y.isZero then if x.isZero then nan else infinity negative
  else ofUnits negative (x.units * Nat.pow 2 f.scale) y.units

/-- One. -/
def one : Binary f := ofUnits false (Nat.pow 2 f.scale) 1

/-- The first number to the power of the second. Beside a signaling NaN it is NaN. Otherwise it is
one where the exponent is zero or the base is one, even beside a NaN. -/
def pow (x y : Double) : Double :=
  let toFloat (z : Double) : Float := Float.ofBits (UInt64.ofNat z.toBits)
  if x.isSignaling || y.isSignaling then nan
  else if y.isZero || x == one then one
  else if x.isNaN || y.isNaN then nan
  else ofBits (Float.pow (toFloat x) (toFloat y)).toBits.toNat

end NumericTrees.Binary
