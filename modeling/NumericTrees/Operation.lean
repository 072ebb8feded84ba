import NumericTrees.Number.Arithmetic
import NumericTrees.Slots

/-!
# Operations

The function nodes of a tree, apart from their children: a protected division with its protection
value, and a coefficient power. The type of a result depends on the types of the operands alone.
-/

namespace NumericTrees

/-- What a function node does with the values of its children. -/
inductive Operation where
  | division (protection : Double)
  | power
  deriving DecidableEq

namespace Operation

/-- The protection value of a division that is not given another one. -/
def defaultProtection : Double := .zero false

/-- The number of operands. -/
def arity : Operation → Nat
  | division _ => 2
  | power => 3

def identifier : Operation → String
  | division _ => "PDIV"
  | power => "CVP"

/-- The protection value of a division. -/
def protection? : Operation → Option Double
  | division protection => some protection
  | power => none

/-- The type of the result for operands of the given types. -/
def infer (op : Operation) (inputs : List ValueType) : Option ValueType :=
  if inputs.length = op.arity then
    match op with
    | division _ => (ValueType.widest? inputs).map .numeric
    | power => if ValueType.allNumeric inputs then some (.numeric .float64) else none
  else none

/-- The result for numeric operands. -/
def compute : (op : Operation) → Tuple Number op.arity → Number
  | division protection, .cons dividend (.cons divisor .nil) =>
    Number.divide protection dividend divisor
  | power, .cons coefficient (.cons term (.cons exponent .nil)) =>
    .float64 (Number.coefficientPower coefficient.toDouble term.toDouble exponent.toDouble)

/-- The result for any operands, which must be numbers. -/
def apply (op : Operation) (inputs : Tuple Value op.arity) : Except EvalError Value := do
  let operands ← expectNumeric op.identifier inputs
  return .number (op.compute operands)

end Operation

end NumericTrees
