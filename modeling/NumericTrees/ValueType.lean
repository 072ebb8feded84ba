import NumericTrees.Kind

/-!
# Types of values

A value is a number of some kind, a truth value or a text. Only the numeric types take part in
arithmetic; `widest?` answers for a list of types the kind in which numbers of those types meet,
and answers nothing as soon as one of them is not numeric.
-/

namespace NumericTrees

/-- The type of a value. -/
inductive ValueType where
  | numeric (kind : Kind)
  | bool
  | str
  deriving DecidableEq, Repr

namespace ValueType

/-- The kind of a numeric type. -/
def kind? : ValueType → Option Kind
  | numeric kind => some kind
  | bool | str => none

/-- Whether values of the type are numbers. -/
def isNumeric : ValueType → Bool
  | numeric _ => true
  | bool | str => false

/-- The name under which a type is reported. -/
def text : ValueType → String
  | numeric kind => kind.text
  | bool => "Bool"
  | str => "Str"

/-- Whether every type of a list is numeric; true of the empty list. -/
def allNumeric (types : List ValueType) : Bool := types.all isNumeric

/-- The widest kind of a list of types: none for an empty list, and none where some type is not
numeric. -/
def widest? (types : List ValueType) : Option Kind := do
  let kinds ← types.mapM kind?
  kinds.max?

/-- A list of types as it stands in a message. -/
def listText (types : List ValueType) : String := ", ".intercalate (types.map text)

end ValueType

end NumericTrees
