import Mathlib.Data.List.Induction
import Mathlib.Data.List.Nodup
import Mathlib.Logic.Function.Basic
import NumericTrees.Proofs.Editing
import NumericTrees.Proofs.Registration

/-!
# Assembling trees from new nodes

Building a tree of a given shape with a registry: a new node is made for every position, and the
nodes are put into the slots of their parents one after another. What has been put together so far
are pieces, one for each position that has not been put into its slot yet. In which order this is
done makes no difference; from the root downwards and from the leaves upwards are two of the orders.
The invariant of a run is that a piece shows of the tree to be built just what has been connected.
-/

namespace NumericTrees

/-- The operation with the given protection value where it is a division. -/
def Operation.protectedBy (protection : Double) : Operation → Operation
  | division _ => division protection
  | power => power

namespace Tree

/-- Builds an operation on the children that there are, a division with the protection value. -/
def buildNode (protection : Double) : (op : Operation) → Slots Tree op.arity → Tree
  | .division _, .cons dividend (.cons divisor .nil) => division protection dividend divisor
  | .power, .cons coefficient (.cons term (.cons exponent .nil)) => power coefficient term exponent

/-- The tree of a shape built by hand, with one protection value for all divisions. The protection
values in the shape itself do not count. -/
def direct (protection : Double) : Tree → Tree := fold terminal (buildNode protection)

/-- The paths that lead to nodes, those in front of a node's children in front of these. -/
def positions : Tree → List (List Nat) :=
  fold (fun _ => [[]]) fun op below =>
    [] :: (List.range op.arity).flatMap fun index =>
      ((Slots.child? below index).getD []).map (index :: ·)

/-- The new node for the root of a shape. A leaf is brought along. -/
def newNode (r : Registry) : Tree → Option Tree
  | terminal x => some (terminal x)
  | function op _ => r.create op.identifier

/-- The pieces of a tree under construction, by the position where their root is to stand. -/
abbrev Pieces := List Nat → Option Tree

/-- The pieces at first, one for every position of the shape. -/
def newNodes (r : Registry) (shape : Tree) : Pieces := fun path =>
  (shape.descendant? path).bind (newNode r)

namespace Pieces

/-- The position of the root of the piece that has the node of a position. -/
def rootOf (pieces : Pieces) (path : List Nat) : List Nat :=
  if path = [] ∨ (pieces path).isSome then path else rootOf pieces path.dropLast
termination_by path.length
decreasing_by
  have hne : path ≠ [] := fun h => by simp_all
  have hpos := List.length_pos_of_ne_nil hne
  rw [List.length_dropLast]
  omega

/-- Puts the piece of a position into its slot, which must be there and empty. -/
def attach (pieces : Pieces) (path : List Nat) : Option Pieces := do
  let index ← path.getLast?
  let child ← pieces path
  let root := pieces.rootOf path.dropLast
  let owner ← pieces root
  match owner.setChildAt (path.dropLast.drop root.length) index child with
  | some (.ok ⟨tree, none⟩) => some (Function.update (Function.update pieces root tree) path none)
  | _ => none

end Pieces

/-- Builds a tree of a shape from new nodes, putting them into their slots in the given order. -/
def assemble (r : Registry) (shape : Tree) (order : List (List Nat)) : Option Tree := do
  let pieces ← order.foldlM Pieces.attach (shape.newNodes r)
  pieces []

/-! ### Shapes -/

section Shape

variable {protection : Double}

lemma direct_terminal (x : Terminal) : (terminal x).direct protection = terminal x := by
  rw [direct, fold_terminal]

lemma direct_function (op : Operation) (slots : Slots Tree op.arity) :
    (function op slots).direct protection =
      buildNode protection op (slots.map (Option.map (direct protection))) := by
  rw [direct, fold_function]

lemma label_buildNode (op : Operation) (slots : Slots Tree op.arity) :
    (buildNode protection op slots).label = .inr (op.protectedBy protection) := by
  cases op with
  | division _ =>
    obtain _ | ⟨dividend, _ | ⟨divisor, _ | _⟩⟩ := slots
    rfl
  | power =>
    obtain _ | ⟨coefficient, _ | ⟨term, _ | ⟨exponent, _ | _⟩⟩⟩ := slots
    rfl

lemma child?_buildNode (op : Operation) (slots : Slots Tree op.arity) (index : Nat) :
    (buildNode protection op slots).child? index = Slots.child? slots index := by
  cases op with
  | division _ =>
    obtain _ | ⟨dividend, _ | ⟨divisor, _ | _⟩⟩ := slots
    rfl
  | power =>
    obtain _ | ⟨coefficient, _ | ⟨term, _ | ⟨exponent, _ | _⟩⟩⟩ := slots
    rfl

lemma child?_map {β : Type} {n : Nat} (f : Tree → β) (slots : Slots Tree n) (index : Nat) :
    Slots.child? (slots.map (Option.map f)) index = (Slots.child? slots index).map f := by
  unfold Slots.child?
  rw [Tuple.get?_eq_getElem?, Tuple.get?_eq_getElem?, Tuple.toList_map, List.getElem?_map]
  cases slots.toList[index]? <;> rfl

lemma label?_direct (shape : Tree) (path : List Nat) :
    (shape.direct protection).label? path =
      (shape.label? path).map (Sum.map id (Operation.protectedBy protection)) := by
  induction path generalizing shape with
  | nil =>
    cases shape with
    | terminal x => rw [direct_terminal, label?_nil, Option.map_some, label, Sum.map_inl, id]
    | function op slots =>
      rw [direct_function, label?_nil, label?_nil, label_buildNode, Option.map_some, label,
        Sum.map_inr]
  | cons index path ih =>
    cases shape with
    | terminal x =>
      rw [direct_terminal]
      rfl
    | function op slots =>
      rw [direct_function, label?_cons, label?_cons, child?_buildNode, child?_map, Option.bind_map,
        Option.map_bind]
      congr 1
      funext child
      exact ih child

lemma positions_terminal (x : Terminal) : (terminal x).positions = [[]] := by
  rw [positions, fold_terminal]

lemma positions_function (op : Operation) (slots : Slots Tree op.arity) :
    (function op slots).positions = [] :: (List.range op.arity).flatMap fun index =>
      (((Slots.child? slots index).map positions).getD []).map (index :: ·) := by
  rw [positions, fold_function]
  simp only [child?_map]

lemma mem_positions_iff {t : Tree} {path : List Nat} :
    path ∈ t.positions ↔ (t.descendant? path).isSome := by
  induction t using Tree.induction generalizing path with
  | terminal x =>
    rw [positions_terminal, List.mem_singleton]
    cases path with
    | nil => exact ⟨fun _ => rfl, fun _ => rfl⟩
    | cons index path => exact iff_of_false (by simp) Bool.false_ne_true
  | function op slots ih =>
    rw [positions_function]
    cases path with
    | nil => exact ⟨fun _ => rfl, fun _ => List.mem_cons_self⟩
    | cons index path =>
      rw [descendant?_step, child?_function]
      change _ ↔ ((Slots.child? slots index).bind _).isSome
      simp only [List.mem_cons, reduceCtorEq, false_or, List.mem_flatMap, List.mem_range,
        List.mem_map, List.cons.injEq]
      constructor
      · rintro ⟨i, _, rest, hrest, rfl, rfl⟩
        cases hchild : Slots.child? slots i with
        | none =>
          rw [hchild] at hrest
          cases hrest
        | some child =>
          rw [hchild] at hrest
          exact (ih child (Slots.mem_children_of_child? hchild)).mp hrest
      · intro h
        cases hchild : Slots.child? slots index with
        | none =>
          rw [hchild] at h
          cases h
        | some child =>
          rw [hchild] at h
          have hslot : (slots.get? index).isSome := by
            rw [Option.join_eq_some_iff.mp hchild]
            rfl
          refine ⟨index, slots.get?_isSome_iff.mp hslot, path, ?_, rfl, rfl⟩
          rw [hchild]
          exact (ih child (Slots.mem_children_of_child? hchild)).mpr h

lemma nodup_positions (t : Tree) : t.positions.Nodup := by
  induction t using Tree.induction with
  | terminal x =>
    rw [positions_terminal]
    exact List.nodup_singleton _
  | function op slots ih =>
    rw [positions_function, List.nodup_cons, List.nodup_flatMap]
    refine ⟨by simp, ?_, ?_⟩
    · intro index _
      apply List.Nodup.map (List.cons_injective)
      cases hchild : Slots.child? slots index with
      | none => exact List.nodup_nil
      | some child => exact ih child (Slots.mem_children_of_child? hchild)
    · apply List.nodup_range.imp
      intro i j hij path hi hj
      obtain ⟨rest, _, rfl⟩ := List.mem_map.mp hi
      obtain ⟨rest', _, heq⟩ := List.mem_map.mp hj
      exact hij (List.cons.inj heq).1.symm

end Shape

/-! ### Pieces -/

/-- Everything on the way from a position down a path has been put into its slot. -/
def Connected (attached : List (List Nat)) : (root path : List Nat) → Prop
  | _, [] => True
  | root, index :: path => root ++ [index] ∈ attached ∧ Connected attached (root ++ [index]) path

instance decidableConnected (attached : List (List Nat)) :
    (root path : List Nat) → Decidable (Connected attached root path)
  | _, [] => isTrue trivial
  | root, index :: path =>
    have := decidableConnected attached (root ++ [index]) path
    inferInstanceAs (Decidable (_ ∧ _))

section Connected

variable {attached : List (List Nat)} {root path path' : List Nat}

lemma connected_append :
    Connected attached root (path ++ path') ↔
      Connected attached root path ∧ Connected attached (root ++ path) path' := by
  induction path generalizing root with
  | nil =>
    rw [List.nil_append, List.append_nil, Connected, true_and]
  | cons index path ih =>
    rw [List.cons_append, Connected, Connected, ih, List.append_assoc, List.singleton_append,
      and_assoc]

lemma Connected.mem (h : Connected attached root (path ++ path')) (hne : path ≠ []) :
    root ++ path ∈ attached := by
  obtain ⟨front, index, rfl⟩ := (List.eq_nil_or_concat path).resolve_left hne
  rw [List.concat_eq_append] at h ⊢
  have hlast := (connected_append.mp (connected_append.mp h).1).2.1
  rwa [List.append_assoc] at hlast

lemma Connected.cons (h : Connected attached root path) (slot : List Nat) :
    Connected (slot :: attached) root path := by
  induction path generalizing root with
  | nil => trivial
  | cons index path ih => exact ⟨List.mem_cons_of_mem _ h.1, ih h.2⟩

/-- A position that is not on the way makes no difference. -/
lemma connected_cons_iff {slot : List Nat}
    (h : ∀ front back, front ≠ [] → path = front ++ back → root ++ front ≠ slot) :
    Connected (slot :: attached) root path ↔ Connected attached root path := by
  induction path generalizing root with
  | nil => exact Iff.rfl
  | cons index path ih =>
    have hfirst : root ++ [index] ≠ slot := h [index] path (by simp) rfl
    rw [Connected, Connected, List.mem_cons, or_iff_right hfirst, ih]
    intro front back _ hpath
    rw [List.append_assoc]
    exact h (index :: front) back (by simp) (by rw [hpath, List.cons_append])

end Connected

/-- A piece shows of a tree what is connected to its root. -/
def Shows (attached : List (List Nat)) (goal : Tree) (root : List Nat) (piece : Tree) : Prop :=
  ∀ path, piece.label? path =
    if Connected attached root path then goal.label? (root ++ path) else none

/-- The pieces of a tree when some of its positions have been put into their slots. -/
structure PiecesOf (attached : List (List Nat)) (goal : Tree) (pieces : Pieces) : Prop where
  root_free : [] ∉ attached
  gone : ∀ path ∈ attached, pieces path = none
  shows : ∀ root ∉ attached, (goal.label? root).isSome →
    ∃ piece, pieces root = some piece ∧ Shows attached goal root piece

section PiecesOf

variable {attached : List (List Nat)} {goal : Tree} {pieces : Pieces}

lemma isSome_label?_of_append {t : Tree} {path path' : List Nat}
    (h : (t.label? (path ++ path')).isSome) : (t.label? path).isSome := by
  rw [label?_append] at h
  rw [label?, Option.isSome_map]
  exact Option.isSome_of_isSome_bind h

lemma hasSlot_of_isSome {t : Tree} {path : List Nat} {index : Nat}
    (h : (t.label? (path ++ [index])).isSome) : t.HasSlot path index := by
  rw [label?_append] at h
  cases hn : t.descendant? path with
  | none =>
    rw [hn] at h
    cases h
  | some n =>
    rw [hn, Option.bind_some, label?_cons] at h
    cases n with
    | terminal x => cases h
    | function op slots =>
      rw [child?_function] at h
      refine ⟨op, by rw [label?, hn]; rfl, ?_⟩
      by_contra hle
      rw [Tuple.get?_of_le (Nat.le_of_not_lt hle)] at h
      cases h

lemma PiecesOf.rootOf_spec (h : PiecesOf attached goal pieces) {path : List Nat}
    (hgoal : (goal.label? path).isSome) :
    ∃ rest, path = pieces.rootOf path ++ rest ∧ pieces.rootOf path ∉ attached ∧
      Connected attached (pieces.rootOf path) rest := by
  induction path using List.reverseRecOn with
  | nil =>
    rw [Pieces.rootOf, if_pos (.inl rfl)]
    exact ⟨[], rfl, h.root_free, trivial⟩
  | append_singleton path index ih =>
    have hne : path ++ [index] ≠ [] := by simp
    rw [Pieces.rootOf, List.dropLast_concat]
    by_cases hpiece : (pieces (path ++ [index])).isSome
    · rw [if_pos (.inr hpiece)]
      refine ⟨[], (List.append_nil _).symm, ?_, trivial⟩
      intro hmem
      rw [h.gone _ hmem] at hpiece
      cases hpiece
    · rw [if_neg (not_or.mpr ⟨hne, hpiece⟩)]
      obtain ⟨rest, hpath, hfree, hconnected⟩ := ih (isSome_label?_of_append hgoal)
      have hmem : path ++ [index] ∈ attached := by
        by_contra hmem
        obtain ⟨piece, hsome, _⟩ := h.shows _ hmem hgoal
        rw [hsome] at hpiece
        exact hpiece rfl
      refine ⟨rest ++ [index], ?_, hfree, ?_⟩
      · rw [← List.append_assoc, ← hpath]
      · rw [connected_append, ← hpath]
        exact ⟨hconnected, hmem, trivial⟩

lemma Shows.graft {root slot : List Nat} {owner child tree : Tree}
    (howner : Shows attached goal root owner)
    (hchild : Shows attached goal (root ++ slot) child)
    (hconnected : Connected ((root ++ slot) :: attached) root slot)
    (hslot : tree.descendant? slot = some child) (houtside : AgreeOutside slot tree owner) :
    Shows ((root ++ slot) :: attached) goal root tree := by
  intro path
  by_cases hin : slot <+: path
  · obtain ⟨rest, rfl⟩ := hin
    have hiff : Connected ((root ++ slot) :: attached) (root ++ slot) rest ↔
        Connected attached (root ++ slot) rest := by
      apply connected_cons_iff
      intro front _ hne _ heq
      exact hne (List.append_cancel_left (heq.trans (List.append_nil _).symm))
    rw [label?_append, hslot, Option.bind_some, hchild, ← List.append_assoc]
    simp only [connected_append, hconnected, true_and, hiff]
  · have hiff : Connected ((root ++ slot) :: attached) root path ↔
        Connected attached root path := by
      apply connected_cons_iff
      intro front back _ hpath heq
      exact hin ⟨back, by rw [hpath, List.append_cancel_left heq]⟩
    rw [houtside path hin, howner]
    simp only [hiff]

lemma Shows.of_ne {root root' slot : List Nat} {piece : Tree} (h : Shows attached goal root' piece)
    (hfree : root ∉ attached) (hfree' : root' ∉ (root ++ slot) :: attached) (hslot : slot ≠ [])
    (hconnected : Connected ((root ++ slot) :: attached) root slot) (hne : root' ≠ root) :
    Shows ((root ++ slot) :: attached) goal root' piece := by
  have hiff : ∀ path, Connected ((root ++ slot) :: attached) root' path ↔
      Connected attached root' path := by
    intro path
    refine ⟨fun hway => (connected_cons_iff ?_).mp hway, fun hway => hway.cons _⟩
    rintro front back - rfl heq
    -- A way through the slot leads through the root of the other piece, which has not been
    -- attached, or it starts between that root and the slot, where everything has been.
    obtain ⟨between, hroot, rfl⟩ | ⟨between, hroot, rfl⟩ := List.append_eq_append_iff.mp heq
    · have hbetween : between ≠ [] := by
        rintro rfl
        exact hne (hroot.trans (List.append_nil _)).symm
      rw [List.append_assoc] at hway
      have hmem := hway.mem hbetween
      rw [← hroot, List.mem_cons] at hmem
      obtain hmem | hmem := hmem
      · exact hslot (List.append_cancel_left (hmem.symm.trans (List.append_nil _).symm))
      · exact hfree hmem
    · have hbetween : between ≠ [] := by
        rintro rfl
        exact hne (hroot.trans (List.append_nil _))
      have hmem := hconnected.mem hbetween
      rw [← hroot] at hmem
      exact hfree' hmem
  intro path
  rw [h]
  simp only [hiff]

/-- Filling a slot of one piece with another one keeps all pieces true to the tree. -/
lemma PiecesOf.graft (h : PiecesOf attached goal pieces) {root slot : List Nat}
    {owner child tree : Tree} (hfree : root ∉ attached) (hslot : slot ≠ [])
    (hconnected : Connected ((root ++ slot) :: attached) root slot)
    (howner : Shows attached goal root owner) (hchild : Shows attached goal (root ++ slot) child)
    (hoccupant : tree.descendant? slot = some child) (houtside : AgreeOutside slot tree owner) :
    PiecesOf ((root ++ slot) :: attached) goal
      (Function.update (Function.update pieces root tree) (root ++ slot) none) := by
  constructor
  case root_free =>
    have hne : root ++ slot ≠ [] := by simp [hslot]
    rw [List.mem_cons, not_or]
    exact ⟨hne.symm, h.root_free⟩
  case gone =>
    intro other hother
    by_cases hsame : other = root ++ slot
    · rw [hsame, Function.update_self]
    · have hmem := (List.mem_cons.mp hother).resolve_left hsame
      have hother_root : other ≠ root := by
        rintro rfl
        exact hfree hmem
      rw [Function.update_of_ne hsame, Function.update_of_ne hother_root]
      exact h.gone other hmem
  case shows =>
    intro other hother hgoal
    have hsame : other ≠ root ++ slot := fun heq => hother (heq ▸ List.mem_cons_self)
    rw [Function.update_of_ne hsame]
    by_cases hother_root : other = root
    · rw [hother_root, Function.update_self]
      exact ⟨tree, rfl, howner.graft hchild hconnected hoccupant houtside⟩
    · rw [Function.update_of_ne hother_root]
      obtain ⟨piece, hpiece, hshows⟩ :=
        h.shows other (fun hmem => hother (List.mem_cons_of_mem _ hmem)) hgoal
      exact ⟨piece, hpiece, hshows.of_ne hfree hother hslot hconnected hother_root⟩

/-- A position that has not been put into its slot yet can be, whichever it is. -/
lemma PiecesOf.attach (h : PiecesOf attached goal pieces) {path : List Nat} {index : Nat}
    (hgoal : (goal.label? (path ++ [index])).isSome) (hnew : path ++ [index] ∉ attached) :
    ∃ pieces', pieces.attach (path ++ [index]) = some pieces' ∧
      PiecesOf ((path ++ [index]) :: attached) goal pieces' := by
  obtain ⟨rest, hpath, hfree, hconnected⟩ := h.rootOf_spec (isSome_label?_of_append hgoal)
  generalize hroot : pieces.rootOf path = root at hpath hfree hconnected
  have hslot : path ++ [index] = root ++ (rest ++ [index]) := by rw [hpath, List.append_assoc]
  obtain ⟨child, hchild, hshows⟩ := h.shows _ hnew hgoal
  have hgoal_root : (goal.label? root).isSome := by
    rw [hslot] at hgoal
    exact isSome_label?_of_append hgoal
  obtain ⟨owner, howner, hshows'⟩ := h.shows root hfree hgoal_root
  have hhas : owner.HasSlot rest index := by
    rw [HasSlot, hshows', if_pos hconnected, ← hpath]
    exact hasSlot_of_isSome hgoal
  have hempty : owner.descendant? (rest ++ [index]) = none := by
    rw [← label?_eq_none_iff, hshows', if_neg]
    intro hway
    rw [← List.append_nil (rest ++ [index])] at hway
    have hmem := hway.mem (by simp)
    rw [← hslot] at hmem
    exact hnew hmem
  have hconnected' : Connected ((path ++ [index]) :: attached) root (rest ++ [index]) := by
    rw [connected_append, ← hpath]
    exact ⟨hconnected.cons _, List.mem_cons_self, trivial⟩
  obtain ⟨tree, hedit, hoccupant, houtside, _⟩ := hhas.editAt (some child)
  have hset : owner.setChildAt rest index child = some (.ok ⟨tree, none⟩) := by
    rw [setChildAt, hedit, hempty]
    rfl
  refine ⟨Function.update (Function.update pieces root tree) (path ++ [index]) none, ?_, ?_⟩
  · rw [Pieces.attach, List.getLast?_concat, hchild, List.dropLast_concat, hroot]
    simp only [Option.bind_eq_bind, Option.bind_some, howner]
    rw [hpath, List.drop_left, hset]
  · rw [hslot] at hshows hconnected' ⊢
    exact h.graft hfree (by simp) hconnected' hshows' hshows hoccupant houtside

/-- Positions can be put into their slots in any order, each of them once. -/
lemma PiecesOf.run (h : PiecesOf attached goal pieces) {order : List (List Nat)}
    (hnodup : order.Nodup) (hnew : ∀ path ∈ order, path ∉ attached)
    (hgoal : ∀ path ∈ order, path ≠ [] ∧ (goal.label? path).isSome) :
    ∃ pieces', order.foldlM Pieces.attach pieces = some pieces' ∧
      PiecesOf (order.reverse ++ attached) goal pieces' := by
  induction order generalizing attached pieces with
  | nil => exact ⟨pieces, rfl, h⟩
  | cons path order ih =>
    rw [List.nodup_cons] at hnodup
    rw [List.forall_mem_cons] at hnew hgoal
    obtain ⟨front, index, rfl⟩ := (List.eq_nil_or_concat path).resolve_left hgoal.1.1
    rw [List.concat_eq_append] at hnodup hnew hgoal ⊢
    obtain ⟨pieces', hattach, hpieces'⟩ := h.attach hgoal.1.2 hnew.1
    have hnew' : ∀ other ∈ order, other ∉ (front ++ [index]) :: attached := by
      intro other hother hmem
      obtain rfl | hmem := List.mem_cons.mp hmem
      · exact hnodup.1 hother
      · exact hnew.2 other hother hmem
    obtain ⟨pieces'', hrun, hpieces''⟩ := ih hpieces' hnodup.2 hnew' hgoal.2
    refine ⟨pieces'', ?_, ?_⟩
    · rw [List.foldlM_cons, hattach]
      exact hrun
    · rw [List.reverse_cons, List.append_assoc, List.singleton_append]
      exact hpieces''

end PiecesOf

/-! ### The standard registry -/

lemma create_standard (protection : Double) (op : Operation) :
    (Registry.standard ⟨protection⟩).create op.identifier =
      some (skeleton (op.protectedBy protection)) := by
  rw [(Registry.ordered_standard _).create_eq, Registry.entries_standard]
  cases op <;> rfl

lemma toList_replicate {α : Type} (a : α) (n : Nat) :
    (Tuple.replicate a n).toList = List.replicate n a := by
  induction n with
  | zero => rfl
  | succ n ih => rw [Tuple.replicate, Tuple.toList, ih, List.replicate_succ]

lemma child?_skeleton (op : Operation) (index : Nat) : (skeleton op).child? index = none := by
  rw [skeleton, child?_function, Slots.empty, Tuple.get?_eq_getElem?, toList_replicate,
    List.getElem?_replicate]
  split <;> rfl

/-- A new node has the label of the shape, with the protection value of the registry, and no
children. -/
lemma newNode_standard (protection : Double) (n : Tree) :
    ∃ piece, n.newNode (.standard ⟨protection⟩) = some piece ∧
      piece.label = Sum.map id (Operation.protectedBy protection) n.label ∧
      ∀ index, piece.child? index = none := by
  cases n with
  | terminal x => exact ⟨terminal x, rfl, rfl, fun _ => rfl⟩
  | function op slots => exact ⟨_, create_standard protection op, rfl, child?_skeleton _⟩

lemma piecesOf_newNodes (protection : Double) (shape : Tree) :
    PiecesOf [] (shape.direct protection) (shape.newNodes (.standard ⟨protection⟩)) := by
  constructor
  case root_free => exact List.not_mem_nil
  case gone => exact fun _ hmem => absurd hmem List.not_mem_nil
  case shows =>
    intro root _ hgoal
    rw [label?_direct, Option.isSome_map, label?, Option.isSome_map] at hgoal
    obtain ⟨n, hn⟩ := Option.isSome_iff_exists.mp hgoal
    obtain ⟨piece, hpiece, hlabel, hchild⟩ := newNode_standard protection n
    refine ⟨piece, ?_, ?_⟩
    · rw [newNodes, hn, Option.bind_some, hpiece]
    · intro path
      cases path with
      | nil =>
        have hway : Connected [] root [] := trivial
        rw [if_pos hway, List.append_nil, label?_nil, hlabel, label?_direct, label?, hn]
        rfl
      | cons index path =>
        rw [if_neg (fun hway => absurd hway.1 List.not_mem_nil), label?_cons, hchild]
        rfl

lemma connected_of_forall {attached : List (List Nat)} {goal : Tree}
    (h : ∀ path, path ≠ [] → (goal.label? path).isSome → path ∈ attached) {root path : List Nat}
    (hgoal : (goal.label? (root ++ path)).isSome) : Connected attached root path := by
  induction path generalizing root with
  | nil => trivial
  | cons index path ih =>
    rw [List.append_cons] at hgoal
    exact ⟨h _ (by simp) (isSome_label?_of_append hgoal), ih hgoal⟩

/-- A tree built with the standard registry, from a new node for every position and by putting them
into the slots of their parents in any order at all, is the tree built by hand, with the protection
value of the registry in all of its divisions. No step of this fails. -/
theorem assemble_any_order (protection : Double) (shape : Tree) {order : List (List Nat)}
    (horder : ([] :: order).Perm shape.positions) :
    shape.assemble (.standard ⟨protection⟩) order = some (shape.direct protection) := by
  have hpositions : ∀ path, ((shape.direct protection).label? path).isSome ↔
      path ∈ [] :: order := by
    intro path
    rw [horder.mem_iff, mem_positions_iff, label?_direct, Option.isSome_map, label?,
      Option.isSome_map]
  have hnodup := horder.nodup_iff.mpr shape.nodup_positions
  rw [List.nodup_cons] at hnodup
  obtain ⟨pieces, hrun, hpieces⟩ := (piecesOf_newNodes protection shape).run hnodup.2
    (fun path _ => List.not_mem_nil) (by
      intro path hpath
      refine ⟨?_, (hpositions path).mpr (List.mem_cons_of_mem _ hpath)⟩
      rintro rfl
      exact hnodup.1 hpath)
  rw [List.append_nil] at hpieces
  obtain ⟨built, hbuilt, hshows⟩ :=
    hpieces.shows [] hpieces.root_free ((hpositions []).mpr List.mem_cons_self)
  have hall : ∀ path, path ≠ [] → ((shape.direct protection).label? path).isSome →
      path ∈ order.reverse := by
    intro path hne hsome
    exact List.mem_reverse.mpr ((List.mem_cons.mp ((hpositions path).mp hsome)).resolve_left hne)
  have heq : built = shape.direct protection := by
    apply eq_of_label?
    intro path
    rw [hshows, List.nil_append]
    split
    · rfl
    · rename_i hway
      by_contra hne
      have hsome := Option.ne_none_iff_isSome.mp (Ne.symm hne)
      exact hway (connected_of_forall hall hsome)
  rw [assemble, hrun, Option.bind_eq_bind, Option.bind_some, hbuilt, heq]

/-- A power with an empty slot below a division. The power is put into its slot when one of its
leaves is there already and the other one is not. -/
theorem assemble_any_order_mixed :
    let x := ofVariable ⟨"x", .numeric .int32, 0⟩
    let two := ofValue (.number (.int32 2))
    let shape := division (.zero false) (some (power (some two) none (some x))) (some two)
    let order := [[0, 2], [1], [0], [0, 0]]
    ([] :: order).Perm shape.positions ∧
    shape.assemble (.standard ⟨.zero true⟩) order =
      some (division (.zero true) (some (power (some two) none (some x))) (some two)) := by
  intro x two shape order
  have horder : ([] :: order).Perm shape.positions := by decide
  exact ⟨horder, assemble_any_order (.zero true) shape horder⟩

end Tree

end NumericTrees
