import NumericTrees.Binary.Conversion
import NumericTrees.Decimal.Shortest
import NumericTrees.Number.Basic

/-!
# Texts of numbers

The text of a number tells its kind: 64-bit integers end in `L`, 32-bit floating-point numbers in
`f`, and every finite floating-point number has a point.
-/

namespace NumericTrees.Number

/-- An integer in decimal, with a minus sign below zero. -/
def decimal (n : Int) : List Char :=
  (if n < 0 then ['-'] else []) ++ Nat.toDigits 10 n.natAbs

/-- The characters of a floating-point number of which `display` are those it is displayed under, so
that it reads back as one: where they have neither a point nor an exponent they get a point. NaN and
the infinities have texts of their own, without a suffix. -/
def formatFloat (value : Double) (display suffix : List Char) : List Char :=
  if value.isNaN then ['n', 'a', 'n']
  else if value.isInfinite then
    if value.negative then ['-', 'i', 'n', 'f'] else ['i', 'n', 'f']
  else if display.contains '.' || display.contains 'e' || display.contains 'E' then
    display ++ suffix
  else display ++ '.' :: suffix

/-- The characters of the text of a number. -/
def chars : Number → List Char
  | int32 n => decimal n.toInt
  | int64 n => decimal n.toInt ++ ['L']
  | float32 x => formatFloat (x.convert .double) x.display ['f']
  | float64 x => formatFloat x x.display []

end NumericTrees.Number
