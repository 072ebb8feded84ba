import NumericTrees.Tree.Basic

/-!
# Editing trees

Putting a child into a slot and taking it out, at the root and at any node below it. A path is the
list of the slots that lead from the root to a node. An edit hands back what was in the slot.
-/

namespace NumericTrees.Tree

/-- A tree after an edit, and the child that the edit displaced. -/
structure Edited where
  tree : Tree
  displaced : Option Tree

/-- Puts something else into a slot of the root and answers with what was in it before. -/
def exchange (t : Tree) (index : Nat) (occupant : Option Tree) :
    Change Tree SlotError (Option Tree) :=
  match t with
  | terminal t => ⟨.error ⟨index, t.arity⟩, terminal t⟩
  | function op slots => (Slots.exchange slots index occupant).within (function op)

/-- Puts a child into a slot of the root. -/
def setChild (t : Tree) (index : Nat) (child : Tree) : Except SlotError Edited :=
  (t.exchange index (some child)).made Edited.mk

/-- Takes the child out of a slot of the root. -/
def takeChild (t : Tree) (index : Nat) : Except SlotError Edited :=
  (t.exchange index none).made Edited.mk

/-- The node at the end of a path. -/
def descendant? (t : Tree) : (path : List Nat) → Option Tree
  | [] => some t
  | index :: path => do
    let child ← t.child? index
    child.descendant? path

/-- The tree with another child in a slot of its root; the same tree where there is no such
slot. -/
def withChild (t : Tree) (index : Nat) (child : Tree) : Tree :=
  match t with
  | terminal t => terminal t
  | function op slots => function op (slots.set index (some child))

/-- Edits the node at the end of a path and puts it back in its place. There is no answer where the
path leads nowhere. -/
def editAt (edit : Tree → Change Tree SlotError (Option Tree)) (t : Tree) :
    (path : List Nat) → Option (Change Tree SlotError (Option Tree))
  | [] => some (edit t)
  | index :: path => do
    let child ← t.child? index
    let edited ← child.editAt edit path
    return edited.within (t.withChild index)

/-- Puts a child into a slot of the node at the end of a path. -/
def setChildAt (t : Tree) (path : List Nat) (index : Nat) (child : Tree) :
    Option (Except SlotError Edited) :=
  (t.editAt (·.exchange index (some child)) path).map (·.made Edited.mk)

/-- Takes the child out of a slot of the node at the end of a path. -/
def takeChildAt (t : Tree) (path : List Nat) (index : Nat) : Option (Except SlotError Edited) :=
  (t.editAt (·.exchange index none) path).map (·.made Edited.mk)

end NumericTrees.Tree
