import NumericTrees.Number.Text
import NumericTrees.Text.Quoted
import NumericTrees.ValueType

/-!
# Values

What a node of a tree can produce: a number, a truth value or a text.
-/

namespace NumericTrees

/-- A number, a truth value or a text. -/
inductive Value where
  | number (n : Number)
  | bool (b : Bool)
  | str (s : String)
  deriving DecidableEq

namespace Value

def type : Value → ValueType
  | number n => .numeric n.kind
  | bool _ => .bool
  | str _ => .str

/-- The number that a value is. -/
def number? : Value → Option Number
  | number n => some n
  | bool _ | str _ => none

/-- The characters of the text of a value. -/
def chars : Value → List Char
  | number n => n.chars
  | bool true => ['t', 'r', 'u', 'e']
  | bool false => ['f', 'a', 'l', 's', 'e']
  | str s => Text.quoted Text.isHidden s.toList

/-- The text of a value; texts are quoted. -/
def text (v : Value) : String := String.ofList v.chars

/-- Equality of values of one type, numbers being compared as in arithmetic. -/
def equals : Value → Value → Bool
  | number m, number n => m.equals n
  | bool a, bool b => a == b
  | str s, str t => s == t
  | _, _ => false

end Value

end NumericTrees
