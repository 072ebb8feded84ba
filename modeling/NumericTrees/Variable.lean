import NumericTrees.Change
import NumericTrees.Value

/-!
# Variables

A variable is a name, a declared type and a cell of a store. Variables that are copies of one
another share their cell; variables declared apart never do, even under one name. A cell is empty
or holds a value of the declared type.
-/

namespace NumericTrees

/-- A handle on a cell of a store. -/
structure Variable where
  name : String
  type : ValueType
  cell : Nat
  deriving DecidableEq

/-- Why a variable does not take a value. -/
inductive VariableError where
  | typeMismatch (name : String) (declared found : ValueType)
  deriving DecidableEq

/-- The message for a value that a variable does not take. -/
def VariableError.message : VariableError → String
  | typeMismatch name declared found =>
    let declared := declared.text
    let found := found.text
    s!"variable `{name}` is declared {declared}, cannot hold a {found}"

/-- The cells of all variables. -/
structure Store where
  cells : Array (Option Value)

namespace Store

/-- The store without cells. -/
def empty : Store := ⟨#[]⟩

/-- The value in the cell of a variable. -/
def value? (store : Store) (v : Variable) : Option Value := store.cells[v.cell]?.join

/-- Declares a variable with a cell of its own. -/
def allocate (store : Store) (name : String) (type : ValueType) (content : Option Value) :
    Variable × Store :=
  (⟨name, type, store.cells.size⟩, ⟨store.cells.push content⟩)

/-- Declares a variable that has no value yet. -/
def declare (store : Store) (name : String) (type : ValueType) : Variable × Store :=
  store.allocate name type none

/-- Declares a variable by its first value, whose type becomes its type. -/
def declareWith (store : Store) (name : String) (value : Value) : Variable × Store :=
  store.allocate name value.type (some value)

/-- The store with something else in the cell of a variable. -/
def write (store : Store) (v : Variable) (content : Option Value) : Store :=
  ⟨store.cells.setIfInBounds v.cell content⟩

/-- Gives a variable a value, which must have the declared type. -/
def setValue (store : Store) (v : Variable) (value : Value) : Change Store VariableError Unit :=
  if value.type = v.type then ⟨.ok (), store.write v (some value)⟩
  else ⟨.error (.typeMismatch v.name v.type value.type), store⟩

/-- The store after an assignment, where that is not refused. -/
def assign (store : Store) (v : Variable) (value : Value) : Except VariableError Store :=
  (store.setValue v value).made fun store _ => store

/-- Takes the value of a variable away. -/
def clear (store : Store) (v : Variable) : Store := store.write v none

theorem setValue_of_type {v : Variable} {value : Value} (h : value.type = v.type) (store : Store) :
    store.setValue v value = ⟨.ok (), store.write v (some value)⟩ := if_pos h

/-- A value of another type is refused, and the store stays as it is. -/
theorem setValue_of_type_ne {v : Variable} {value : Value} (h : value.type ≠ v.type)
    (store : Store) :
    store.setValue v value = ⟨.error (.typeMismatch v.name v.type value.type), store⟩ := if_neg h

end Store

end NumericTrees
