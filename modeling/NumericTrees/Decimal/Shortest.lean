import NumericTrees.Binary.Basic
import NumericTrees.Decimal.Positional

/-!
# The shortest decimal of a floating-point number

The reals that round to a floating-point number form an interval, which ends in the middle between
the number and its neighbours and contains its ends when the code of the number is even. Among the
decimals in it the one on the coarsest grid of powers of ten has the fewest digits. On each grid the
two neighbours of the number are tried, since a grid that meets the interval meets it in one of
them; of two that fit the nearer is taken, and the upper one from the middle.

All numbers are whole: a unit of a format is `5 ^ scale` parts of `10 ^ -scale`, and twice that in
the halves in which an interval is counted.
-/

namespace NumericTrees

/-- The interval of the numbers that round to `value`, in one unit of measure. -/
structure RoundingInterval where
  lower : Nat
  value : Nat
  upper : Nat
  closed : Bool

namespace RoundingInterval

/-- Whether a point lies in the interval. -/
def contains (i : RoundingInterval) (point : Nat) : Bool :=
  if i.closed then i.lower ≤ point && point ≤ i.upper else i.lower < point && point < i.upper

/-- The multiple of `2 * 10 ^ k` in the interval that is nearest to the value. -/
def gridPoint? (i : RoundingInterval) (k : Nat) : Option Nat :=
  let step := 2 * Nat.pow 10 k
  let below := i.value / step
  let above := below + 1
  let nearer := if 2 * (i.value % step) < step then below else above
  match i.contains (below * step), i.contains (above * step) with
  | true, true => some nearer
  | true, false => some below
  | false, true => some above
  | false, false => none

/-- The point of the coarsest grid, from `10 ^ k` downwards, that meets the interval, with the
power of ten of that grid. -/
def coarsest (i : RoundingInterval) : Nat → Nat × Nat
  | 0 => (i.value / 2, 0)
  | k + 1 =>
    match i.gridPoint? (k + 1) with
    | some point => (point, k + 1)
    | none => i.coarsest k

/-- A power of ten beyond the interval. -/
def ceiling (i : RoundingInterval) : Nat := i.upper.log2 / 3 + 1

end RoundingInterval

namespace Binary

variable {f : Format}

/-- The numbers that round to the magnitude of a finite number, in halves of `10 ^ -scale`. -/
def roundingInterval (x : Binary f) : RoundingInterval where
  lower := (f.units (x.code - 1) + f.units x.code) * Nat.pow 5 f.scale
  value := 2 * f.units x.code * Nat.pow 5 f.scale
  upper := (f.units x.code + f.units (x.code + 1)) * Nat.pow 5 f.scale
  closed := x.code.val % 2 == 0

/-- The decimal of fewest digits that rounds to the magnitude of a finite number. -/
def shortest (x : Binary f) : Decimal :=
  if x.isZero then ⟨0, 0⟩
  else
    let i := x.roundingInterval
    let (point, k) := i.coarsest i.ceiling
    ⟨point, (k : Int) - f.scale⟩

/-- The characters under which a number is displayed: a sign for a set sign bit and the shortest
decimal. -/
def display (x : Binary f) : List Char :=
  if x.isNaN then ['N', 'a', 'N']
  else
    (if x.negative then ['-'] else []) ++
      if x.isInfinite then ['i', 'n', 'f'] else x.shortest.display

end Binary

end NumericTrees
