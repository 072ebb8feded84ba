import NumericTrees.ValueType

/-!
# Failures of trees

Why a tree has no value, and why it has no type. Each failure names the node or variable that it
arose at, and no node above it changes it.
-/

namespace NumericTrees

/-- Why a tree has no value. -/
inductive EvalError where
  /-- A slot of a node is empty. -/
  | missingChild (node : String) (index : Nat)
  /-- The values of the children of a node are not all numbers; `found` are all their types. -/
  | nonNumeric (node : String) (found : List ValueType)
  /-- A variable has no value. -/
  | unboundVariable (name : String)
  /-- The value of a variable was lost while it was written. -/
  | poisonedVariable (name : String)
  /-- The tree is deeper than allowed. -/
  | depthExceeded (depth maxDepth : Nat)
  deriving DecidableEq

/-- Why a tree has no type. -/
inductive TypeError where
  /-- A slot of a node is empty. -/
  | missingChild (node : String) (index : Nat)
  /-- A node does not take children of these types. -/
  | illTyped (node : String) (inputs : List ValueType)
  /-- The tree is deeper than allowed. -/
  | depthExceeded (depth maxDepth : Nat)
  deriving DecidableEq

/-- The message for an empty slot. -/
def missingChildText (node : String) (index : Nat) : String :=
  s!"`{node}` has no child in slot {index}"

/-- The message for a tree that is too deep. -/
def depthExceededText (depth maxDepth : Nat) : String :=
  s!"tree depth {depth} exceeds maximum of {maxDepth}"

namespace EvalError

def message : EvalError → String
  | missingChild node index => missingChildText node index
  | nonNumeric node found =>
    let types := ValueType.listText found
    s!"`{node}` requires numeric inputs, found ({types})"
  | unboundVariable name => s!"variable `{name}` has no value"
  | poisonedVariable name => s!"variable `{name}` was poisoned by a panicking writer"
  | depthExceeded depth maxDepth => depthExceededText depth maxDepth

end EvalError

namespace TypeError

def message : TypeError → String
  | missingChild node index => missingChildText node index
  | illTyped node inputs =>
    let types := ValueType.listText inputs
    s!"`{node}` cannot take inputs ({types})"
  | depthExceeded depth maxDepth => depthExceededText depth maxDepth

end TypeError

end NumericTrees
