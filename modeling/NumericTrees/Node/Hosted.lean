import NumericTrees.Node.Basic
import NumericTrees.Operation
import NumericTrees.Terminal

/-!
# Trees with functions of the host

Beside the terminals and the operations a host can bring along function nodes of its own. Such a
function reports any number of slots, says which type it has for which inputs, and makes its value
from the evaluations of its children as it likes: it need not evaluate all of them, nor from the
left to the right, and an empty slot need not be a failure.
-/

namespace NumericTrees

universe u

/-- What a function node brought along by the host does, apart from its children. -/
structure HostFunction where
  identifier : String
  arity : Nat
  infer : List ValueType → Option ValueType
  evaluate : Slots (Trace Value) arity → Trace Value

/-- A terminal, or an operation or a function of the host with its slots. -/
inductive HostedTree where
  | terminal (t : Terminal)
  | function (op : Operation) (slots : Tuple (Option HostedTree) op.arity)
  | host (f : HostFunction) (slots : Tuple (Option HostedTree) f.arity)

namespace HostedTree

section Fold

variable {β : Type u} (leaf : Terminal → β) (node : (op : Operation) → Slots β op.arity → β)
  (host : (f : HostFunction) → Slots β f.arity → β)

mutual

/-- Computes a result from the bottom up. -/
def fold : HostedTree → β
  | terminal t => leaf t
  | function op slots => node op (foldSlots slots)
  | .host f slots => host f (foldSlots slots)

/-- The results of the children in a row of slots. -/
def foldSlots : {n : Nat} → Slots HostedTree n → Slots β n
  | _, .nil => .nil
  | _, .cons none rest => .cons none (foldSlots rest)
  | _, .cons (some child) rest => .cons (some (fold child)) (foldSlots rest)

end

theorem foldSlots_eq_map {n : Nat} (slots : Slots HostedTree n) :
    foldSlots leaf node host slots = slots.map (Option.map (fold leaf node host)) := by
  induction slots with
  | nil => simp [foldSlots, Tuple.map]
  | cons slot rest ih => cases slot <;> simp [foldSlots, Tuple.map, ih]

end Fold

def identifier : HostedTree → String
  | terminal t => t.identifier
  | function op _ => op.identifier
  | host f _ => f.identifier

def arity : HostedTree → Nat
  | terminal t => t.arity
  | function op _ => op.arity
  | host f _ => f.arity

def child? : HostedTree → Nat → Option HostedTree
  | terminal _, _ => none
  | function _ slots, index | host _ slots, index => Slots.child? slots index

def inferRoot : HostedTree → List ValueType → Option ValueType
  | terminal t => t.infer
  | function op _ => op.infer
  | host f _ => f.infer

/-- An operation evaluates the children in all of its slots and is then applied to their values; a
function of the host is given the evaluations of its children. -/
def evaluate (store : Store) : HostedTree → Trace Value :=
  fold (Terminal.evaluate store)
    (fun op slots => do
      let inputs ← Slots.evaluateAll op.identifier id slots
      Trace.ofExcept (op.apply inputs))
    HostFunction.evaluate

/-- The number of nodes of a tree. -/
def size : HostedTree → Nat :=
  fold (fun _ => 1) (fun _ slots => 1 + (Slots.children slots).foldr (· + ·) 0)
    fun _ slots => 1 + (Slots.children slots).foldr (· + ·) 0

theorem size_child_lt {t child : HostedTree} {index : Nat} (h : t.child? index = some child) :
    child.size < t.size := by
  cases t with
  | terminal x => cases h
  | function op slots | host f slots =>
    have hle := Slots.weight_le_total size h
    rw [size, fold, foldSlots_eq_map, Slots.children_map, ← size]
    omega

instance : Node HostedTree where
  identifier := identifier
  arity := arity
  child? := child?
  inferRoot := inferRoot
  evaluate := evaluate
  size := size
  size_child_lt _ h := size_child_lt h

end HostedTree

end NumericTrees
