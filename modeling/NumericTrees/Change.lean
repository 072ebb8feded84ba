/-!
# Changes of a state

A change is asked of a store, of a registry or of a tree, and it may be refused. Either way there is
an answer and a state after it, so that what a refusal leaves behind is there to be proved.
-/

namespace NumericTrees

universe u v w

/-- What a change answers, and the state after it. -/
structure Change (σ : Type u) (ε : Type) (α : Type v) where
  answer : Except ε α
  state : σ

namespace Change

variable {σ τ : Type u} {ε : Type} {α : Type v}

/-- What a change that was not refused leads to. -/
def made {β : Type w} (f : σ → α → β) (c : Change σ ε α) : Except ε β := c.answer.map (f c.state)

/-- The change of a part, seen from the whole that it is put back into. -/
def within (whole : σ → τ) (c : Change σ ε α) : Change τ ε α := ⟨c.answer, whole c.state⟩

/-- A change that was refused has left the state as it was before. -/
def Atomic (before : σ) (c : Change σ ε α) : Prop := ∀ e, c.answer = .error e → c.state = before

theorem Atomic.within {before : σ} {c : Change σ ε α} (h : c.Atomic before) (whole : σ → τ) :
    (c.within whole).Atomic (whole before) :=
  fun e he => congrArg whole (h e he)

end Change

end NumericTrees
