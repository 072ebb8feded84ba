import NumericTrees.Failure

/-!
# Traces of evaluations

An evaluation ends with a value or a failure, and on the way it may record tags. The tags survive a
failure: what was recorded before it stays recorded.
-/

namespace NumericTrees

/-- The tags recorded by an evaluation, first to last, and how it ended. -/
structure Trace (α : Type) where
  tags : List Int
  outcome : Except EvalError α

namespace Trace

variable {α β : Type}

/-- The evaluation that fails at once. -/
def fail (e : EvalError) : Trace α := ⟨[], .error e⟩

/-- The evaluation that records nothing and ends as given. -/
def ofExcept (outcome : Except EvalError α) : Trace α := ⟨[], outcome⟩

/-- One evaluation after another; a failure of the first keeps the second from starting. -/
def andThen (t : Trace α) (next : α → Trace β) : Trace β :=
  match t.outcome with
  | .ok a => ⟨t.tags ++ (next a).tags, (next a).outcome⟩
  | .error e => ⟨t.tags, .error e⟩

instance : Monad Trace where
  pure a := ⟨[], .ok a⟩
  bind := andThen

end Trace

end NumericTrees
