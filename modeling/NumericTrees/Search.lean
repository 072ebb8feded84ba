/-!
# Search in ordered rows

Finding an item of an ordered row by halving the range of the indices that are left. `place` tells
of an index whether its item comes before what is looked for, is it, or comes after it.
-/

namespace NumericTrees

/-- The index from `low` up to below `high` whose item is looked for; where there is none, the index
at which it would keep the row in order. -/
def bisect (place : Nat → Ordering) (low high : Nat) : Except Nat Nat :=
  if low < high then
    let middle := (low + high) / 2
    match place middle with
    | .lt => bisect place (middle + 1) high
    | .eq => .ok middle
    | .gt => bisect place low middle
  else .error low
termination_by high - low

end NumericTrees
