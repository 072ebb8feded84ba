import NumericTrees.Binary.Basic

/-!
# Conversions of floating-point numbers

From integers and between formats a conversion is exact where it can be and otherwise rounds to
nearest. Towards integers it drops the fraction and clamps to the range of the target.
-/

namespace NumericTrees.Binary

variable {f : Format}

/-- The number nearest to an integer. -/
def ofInt (n : Int) : Binary f := ofUnits (decide (n < 0)) (n.natAbs * Nat.pow 2 f.scale) 1

/-- The number of format `g` nearest to a number: infinities keep their sign, a NaN stays one. -/
def convert (g : Format) (x : Binary f) : Binary g :=
  if x.isNaN then nan
  else if x.isInfinite then infinity x.negative
  else ofUnits x.negative (x.units * Nat.pow 2 g.scale) (Nat.pow 2 f.scale)

/-- A finite number without its fraction. -/
def truncate (x : Binary f) : Int :=
  let whole : Int := (x.units / Nat.pow 2 f.scale : Nat)
  if x.negative then -whole else whole

/-- A number without its fraction, clamped to the range from `lo` to `hi`; zero for a NaN. -/
def toIntWithin (lo hi : Int) (x : Binary f) : Int :=
  if x.isNaN then 0
  else if x.isInfinite then if x.negative then lo else hi
  else max lo (min hi x.truncate)

end NumericTrees.Binary
