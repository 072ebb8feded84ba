/-!
# Limits on trees

Evaluation and typing recurse as deep as a tree is, so both turn away trees beyond a depth.
-/

namespace NumericTrees

/-- How deep a tree may be. -/
structure Limits where
  maxDepth : Nat := 1000
  deriving DecidableEq

end NumericTrees
