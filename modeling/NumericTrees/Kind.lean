/-!
# Numeric kinds

The four representations that a number can have, with their order. A kind is wider than another
when every calculation that mixes the two is carried out in it; `widen` is the maximum under that
order, and `max?` of a list of kinds is the kind in which a whole list of numbers meets.
-/

namespace NumericTrees

/-- The representations of a number, narrowest first. -/
inductive Kind where
  | int32
  | int64
  | float32
  | float64
  deriving DecidableEq, Repr

namespace Kind

/-- Every kind, narrowest first. -/
def all : List Kind := [int32, int64, float32, float64]

/-- The place of a kind in the widening order. -/
def rank : Kind → Nat
  | int32 => 0
  | int64 => 1
  | float32 => 2
  | float64 => 3

instance : LE Kind := ⟨fun a b => a.rank ≤ b.rank⟩

instance : DecidableLE Kind := fun a b => inferInstanceAs (Decidable (a.rank ≤ b.rank))

instance : Ord Kind := ⟨fun a b => compare a.rank b.rank⟩

/-- The wider of two kinds. -/
def widen (a b : Kind) : Kind := if a ≤ b then b else a

instance : Max Kind := ⟨widen⟩

/-- The kinds of a list from the narrowest to the widest, repetitions kept. -/
def sort (kinds : List Kind) : List Kind := kinds.mergeSort (· ≤ ·)

/-- Whether the numbers of a kind are integers. -/
def isIntegral : Kind → Bool
  | int32 | int64 => true
  | float32 | float64 => false

/-- The name under which a kind is reported. -/
def text : Kind → String
  | int32 => "Int32"
  | int64 => "Int64"
  | float32 => "Float32"
  | float64 => "Float64"

theorem rank_injective {a b : Kind} (h : a.rank = b.rank) : a = b := by
  revert h
  cases a <;> cases b <;> decide

end Kind

end NumericTrees
