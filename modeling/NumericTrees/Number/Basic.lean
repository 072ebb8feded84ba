import NumericTrees.Binary.Basic
import NumericTrees.Kind

/-!
# Numbers

A number is tagged with its kind. Equality of numbers asks for one kind and compares as arithmetic
does: the two zeros of a floating-point kind are equal, and a NaN equals nothing.
-/

namespace NumericTrees

/-- A number of one of the four kinds. -/
inductive Number where
  | int32 (value : Int32)
  | int64 (value : Int64)
  | float32 (value : Single)
  | float64 (value : Double)
  deriving DecidableEq

namespace Number

def kind : Number → Kind
  | int32 _ => .int32
  | int64 _ => .int64
  | float32 _ => .float32
  | float64 _ => .float64

/-- Whether a number is the zero of its kind; of a floating-point kind both zeros are. -/
def isZero : Number → Bool
  | int32 n => n == 0
  | int64 n => n == 0
  | float32 x => x.isZero
  | float64 x => x.isZero

/-- Equality of numbers of one kind, as in arithmetic. -/
def equals : Number → Number → Bool
  | int32 m, int32 n => m == n
  | int64 m, int64 n => m == n
  | float32 x, float32 y => x.equals y
  | float64 x, float64 y => x.equals y
  | _, _ => false

end Number

/-- The zero of a kind, without a sign. -/
def Kind.zero : Kind → Number
  | int32 => .int32 0
  | int64 => .int64 0
  | float32 => .float32 (.zero false)
  | float64 => .float64 (.zero false)

end NumericTrees
