import NumericTrees.Binary.Conversion
import NumericTrees.Number.Basic

/-!
# Coercion of numbers to a kind

Every number has a counterpart in every kind. Between integers the low bits are kept, from floating
point to integers the fraction is dropped and the range clamps, and towards floating point the
nearest number is taken.
-/

namespace NumericTrees.Number

/-- The 32-bit integer for a number. -/
def toInt32 : Number → Int32
  | int32 n => n
  | int64 n => n.toInt32
  | float32 x => .ofInt (x.toIntWithin Int32.minValue.toInt Int32.maxValue.toInt)
  | float64 x => .ofInt (x.toIntWithin Int32.minValue.toInt Int32.maxValue.toInt)

/-- The 64-bit integer for a number. -/
def toInt64 : Number → Int64
  | int32 n => n.toInt64
  | int64 n => n
  | float32 x => .ofInt (x.toIntWithin Int64.minValue.toInt Int64.maxValue.toInt)
  | float64 x => .ofInt (x.toIntWithin Int64.minValue.toInt Int64.maxValue.toInt)

/-- The 32-bit floating-point number for a number. -/
def toSingle : Number → Single
  | int32 n => .ofInt n.toInt
  | int64 n => .ofInt n.toInt
  | float32 x => x
  | float64 x => x.convert .single

/-- The 64-bit floating-point number for a number. -/
def toDouble : Number → Double
  | int32 n => .ofInt n.toInt
  | int64 n => .ofInt n.toInt
  | float32 x => x.convert .double
  | float64 x => x

/-- The counterpart of a number in a kind. -/
def coerce (n : Number) : Kind → Number
  | .int32 => int32 n.toInt32
  | .int64 => int64 n.toInt64
  | .float32 => float32 n.toSingle
  | .float64 => float64 n.toDouble

/-- The counterpart of a plain double, such as a protection value, in a kind. -/
def ofDouble (x : Double) (k : Kind) : Number := (float64 x).coerce k

@[simp] theorem kind_coerce (n : Number) (k : Kind) : (n.coerce k).kind = k := by
  cases k <;> rfl

end NumericTrees.Number
