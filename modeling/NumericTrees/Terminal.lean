import NumericTrees.Trace
import NumericTrees.Variable

/-!
# Terminals

The nodes without children: literals, variables, and terminals that the host of the trees brings
along. A host terminal reports its identifier and its number of slots, says which type it has for
which inputs, and answers every evaluation alike, recording its tag if it has one.
-/

namespace NumericTrees

/-- A constant. Its identifier is the text of its value. -/
structure Literal where
  value : Value
  deriving DecidableEq

namespace Literal

def text (l : Literal) : String := l.value.text

/-- Literals are equal when both their values and their texts are, which tells the zeros apart. -/
def equals (l m : Literal) : Bool := l.value.equals m.value && l.text == m.text

end Literal

/-- A terminal brought along by the host of the trees. It never has children, whatever number of
slots it reports. -/
structure HostTerminal where
  identifier : String
  arity : Nat
  infer : List ValueType → Option ValueType
  tag : Option Int
  outcome : Except EvalError Value

namespace HostTerminal

/-- The terminal that records a tag and answers a value, and takes no inputs. -/
def recording (identifier : String) (tag : Int) (value : Value) : HostTerminal where
  identifier := identifier
  arity := 0
  infer inputs := if inputs.isEmpty then some value.type else none
  tag := some tag
  outcome := .ok value

def evaluate (h : HostTerminal) : Trace Value := ⟨h.tag.toList, h.outcome⟩

end HostTerminal

/-- A node without children. -/
inductive Terminal where
  | literal (l : Literal)
  | var (v : Variable)
  | host (h : HostTerminal)

namespace Terminal

def identifier : Terminal → String
  | literal l => l.text
  | var v => v.name
  | host h => h.identifier

def arity : Terminal → Nat
  | literal _ | var _ => 0
  | host h => h.arity

/-- The type of a terminal for inputs of the given types. -/
def infer : Terminal → List ValueType → Option ValueType
  | literal l, inputs => if inputs.isEmpty then some l.value.type else none
  | var v, inputs => if inputs.isEmpty then some v.type else none
  | host h, inputs => h.infer inputs

/-- The type of a terminal as a tree of its own. A host terminal that reports slots has nothing in
the first of them. -/
def check (t : Terminal) : Except TypeError ValueType :=
  if 0 < t.arity then .error (.missingChild t.identifier 0)
  else
    match t.infer [] with
    | some type => .ok type
    | none => .error (.illTyped t.identifier [])

def evaluate (store : Store) : Terminal → Trace Value
  | literal l => .ofExcept (.ok l.value)
  | var v =>
    match store.value? v with
    | some value => .ofExcept (.ok value)
    | none => .fail (.unboundVariable v.name)
  | host h => h.evaluate

end Terminal

end NumericTrees
