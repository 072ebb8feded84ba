import Mathlib.Logic.Function.Iterate
import Mathlib.Order.MinMax
import Mathlib.Order.Nat
import NumericTrees.Node.Hosted
import NumericTrees.Proofs.Contents
import NumericTrees.Tree.Node

/-!
# Depth and height

The depth of a tree is measured by a loop over pending nodes, its height by recursion over the
children. What carries the loop is that no pass changes whether every pending node, with all that is
below it, stays within a bound. Every pass takes one node of the tree, so the loop ends after as
many passes as the tree has nodes. All of this asks of the nodes no more than which children stand
in their slots.
-/

namespace NumericTrees

lemma foldr_max_le_iff {l : List Nat} {n : Nat} : l.foldr max 0 ≤ n ↔ ∀ k ∈ l, k ≤ n := by
  induction l with
  | nil => simp
  | cons k l ih => rw [List.foldr_cons, max_le_iff, ih, List.forall_mem_cons]

namespace Node

variable {α : Type} [Node α]

/-- One more than the greatest height of a child. -/
def height (t : α) : Nat := 1 + ((children t).attach.map fun ⟨child, _⟩ => height child).foldr max 0
termination_by size t
decreasing_by exact size_lt_of_mem_children ‹_›

lemma height_eq (t : α) : height t = 1 + ((children t).map height).foldr max 0 := by
  rw [height, List.attach_map_val]

lemma height_pos (t : α) : 0 < height t := by
  rw [height_eq]
  omega

lemma height_le_succ_iff {t : α} {n : Nat} :
    height t ≤ n + 1 ↔ ∀ child ∈ children t, height child ≤ n := by
  rw [height_eq, Nat.add_comm 1, Nat.add_le_add_iff_right, foldr_max_le_iff]
  exact List.forall_mem_map

lemma height_lt_of_mem_children {t child : α} (h : child ∈ children t) :
    height child < height t := by
  have hpos := height_pos t
  have hle : height t ≤ (height t - 1) + 1 := by omega
  have hchild := height_le_succ_iff.mp hle child h
  omega

/-- A node that is higher than a leaf stands one above some child. -/
lemma exists_child_of_one_lt_height {t : α} (h : 1 < height t) :
    ∃ child ∈ children t, height t = height child + 1 := by
  obtain ⟨n, hn⟩ : ∃ n, height t = n + 2 := ⟨height t - 2, by omega⟩
  have hexceeds : ¬ ∀ child ∈ children t, height child ≤ n := by
    rw [← height_le_succ_iff]
    omega
  simp only [not_forall, not_le] at hexceeds
  obtain ⟨child, hchild, hlt⟩ := hexceeds
  have hbelow := height_lt_of_mem_children hchild
  exact ⟨child, hchild, by omega⟩

/-! ### The loop -/

/-- The pending nodes with their levels, next one first, and the greatest level so far. -/
abbrev Survey (α : Type) := List (α × Nat) × Nat

/-- One pass of the loop: the next node gives way to its children, one level below it. -/
def surveyPass : Survey α → Survey α
  | ([], deepest) => ([], deepest)
  | ((node, level) :: rest, deepest) =>
    (((children node).map (·, level + 1)).reverse ++ rest, max deepest level)

/-- The loop ends, and it has answered what it has found by then. -/
lemma surveyPass_iterate (pending : List (α × Nat)) (deepest : Nat) :
    surveyPass^[pendingCount pending] (pending, deepest) = ([], deepestLevel pending deepest) := by
  induction pending, deepest using deepestLevel.induct with
  | case1 deepest =>
    rw [deepestLevel]
    rfl
  | case2 deepest node level rest ih =>
    rw [pendingCount_cons node level rest, Function.iterate_succ_apply, deepestLevel]
    exact ih

/-- The invariant of the loop: a bound on the levels still to come is a bound on the levels of the
pending nodes and all nodes below them. -/
lemma deepestLevel_le_iff (pending : List (α × Nat)) (deepest n : Nat) :
    deepestLevel pending deepest ≤ n ↔
      deepest ≤ n ∧ ∀ entry ∈ pending, entry.2 + height entry.1 ≤ n + 1 := by
  induction pending, deepest using deepestLevel.induct with
  | case1 deepest => simp [deepestLevel]
  | case2 deepest node level rest ih =>
    -- A node is within the bound when its own level is and its children are, one level below.
    have hnode : level + height node ≤ n + 1 ↔
        level ≤ n ∧ ∀ child ∈ children node, level + 1 + height child ≤ n + 1 := by
      constructor
      · intro h
        have hpos := height_pos node
        refine ⟨by omega, ?_⟩
        intro child hchild
        have hlt := height_lt_of_mem_children hchild
        omega
      · rintro ⟨hlevel, hchildren⟩
        have hheight : height node ≤ (n - level) + 1 := by
          apply height_le_succ_iff.mpr
          intro child hchild
          have hle := hchildren child hchild
          omega
        omega
    rw [deepestLevel, ih, max_le_iff, List.forall_mem_append, List.forall_mem_cons]
    dsimp only
    rw [hnode]
    simp only [List.mem_reverse, List.forall_mem_map, and_assoc]

theorem depth_eq_height (t : α) : depth t = height t := by
  apply eq_of_forall_ge_iff
  intro n
  rw [depth, deepestLevel_le_iff]
  simp [Nat.add_comm 1]

end Node

/-! ### Trees of terminals and operations -/

/-- The children in the slots of a node, asked for one index after another. -/
lemma Slots.filterMap_child? {α : Type} {n : Nat} (slots : Slots α n) :
    (List.range n).filterMap slots.child? = slots.children := by
  induction slots with
  | nil => rfl
  | cons slot rest ih =>
    rw [List.range_succ_eq_map, List.filterMap_cons, List.filterMap_map]
    cases slot with
    | none => exact ih
    | some child => exact congrArg (child :: ·) ih

namespace Tree

/-- One more than the greatest height of a child. -/
def height : Tree → Nat :=
  fold (fun _ => 1) fun _ slots => 1 + (Slots.children slots).foldr max 0

lemma height_eq (t : Tree) : t.height = 1 + (t.children.map height).foldr max 0 := by
  cases t with
  | terminal x => rw [height, fold_terminal, children, List.map_nil, List.foldr_nil]
  | function op slots => rw [height, fold_function, Slots.children_map, children]

lemma children_node (t : Tree) : Node.children t = t.children := by
  cases t with
  | terminal x => exact List.filterMap_eq_nil_iff.mpr fun _ _ => rfl
  | function op slots => exact Slots.filterMap_child? slots

lemma height_node (t : Tree) : Node.height t = t.height := by
  induction t using Tree.induction with
  | terminal x =>
    rw [Node.height_eq, children_node, height_eq, children]
    rfl
  | function op slots ih =>
    rw [Node.height_eq, children_node, height_eq, children, List.map_congr_left ih]

lemma height_le_succ_iff {t : Tree} {n : Nat} :
    t.height ≤ n + 1 ↔ ∀ child ∈ t.children, child.height ≤ n := by
  rw [← height_node, Node.height_le_succ_iff, children_node]
  simp only [height_node]

lemma height_pos (t : Tree) : 0 < t.height := t.height_node ▸ Node.height_pos t

lemma height_lt_of_mem_children {t child : Tree} (h : child ∈ t.children) :
    child.height < t.height := by
  rw [← children_node] at h
  rw [← height_node, ← height_node]
  exact Node.height_lt_of_mem_children h

theorem depth_eq_height (t : Tree) : t.depth = t.height :=
  (Node.depth_eq_height t).trans t.height_node

end Tree

end NumericTrees
