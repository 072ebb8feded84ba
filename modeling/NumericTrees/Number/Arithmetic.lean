import NumericTrees.Binary.Arithmetic
import NumericTrees.Number.Coercion

/-!
# Protected division and coefficient power

The two operations of the expression trees on numbers. A protected division never fails: a divisor
that is zero in the common kind of both operands makes it answer the protection value instead. A
coefficient power is carried out in doubles and is not protected.
-/

namespace NumericTrees.Number

/-- Quotient in the wider of the two kinds. Integer quotients drop their fraction and wrap round at
the one quotient that is out of range; in place of a quotient by zero stands the protection value
in that kind. -/
def divide (protection : Double) (dividend divisor : Number) : Number :=
  let kind := dividend.kind.widen divisor.kind
  let divisor := divisor.coerce kind
  if divisor.isZero then ofDouble protection kind
  else
    match kind with
    | .int32 => int32 (dividend.toInt32 / divisor.toInt32)
    | .int64 => int64 (dividend.toInt64 / divisor.toInt64)
    | .float32 => float32 (dividend.toSingle.div divisor.toSingle)
    | .float64 => float64 (dividend.toDouble.div divisor.toDouble)

/-- `coefficient * term ^ exponent`. -/
def coefficientPower (coefficient term exponent : Double) : Double :=
  coefficient.mul (term.pow exponent)

theorem kind_divide (protection : Double) (dividend divisor : Number) :
    (divide protection dividend divisor).kind = dividend.kind.widen divisor.kind := by
  unfold divide
  dsimp only
  split
  · exact kind_coerce _ _
  · split <;> simp_all [kind]

end NumericTrees.Number
