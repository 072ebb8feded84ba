import NumericTrees.Proofs.ClosedForm
import NumericTrees.Tree.Edit

/-!
# Grafting

Two trees that differ in what one slot holds, somewhere below their roots, as they do before and
after an edit. Whatever is computed from the bottom up depends on the slot through the result for
its child alone, and the height changes by what reaches below the slot. Exchanging subtrees of two
well-typed trees, as crossover does, can therefore break nothing but the limit on the depth.
-/

namespace NumericTrees

namespace Tuple

variable {α β : Type} {n : Nat} {t : Tuple α n} {i : Nat} {a : α}

lemma get?_set_self (h : t.get? i = some a) (b : α) : (t.set i b).get? i = some b := by
  rw [get?_eq_getElem?] at h ⊢
  have hlt : i < t.toList.length := (List.getElem?_eq_some_iff.mp h).1
  rw [toList_set, List.getElem?_set_self hlt]

lemma toList_injective {t t' : Tuple α n} (h : t.toList = t'.toList) : t = t' := by
  induction t with
  | nil =>
    cases t'
    rfl
  | cons a rest ih =>
    cases t' with
    | cons a' rest' =>
      obtain ⟨rfl, hrest⟩ := List.cons.inj h
      rw [ih hrest]

lemma set_set (t : Tuple α n) (i : Nat) (a b : α) : (t.set i a).set i b = t.set i b := by
  apply toList_injective
  rw [toList_set, toList_set, toList_set, List.set_set]

lemma set_of_get? (h : t.get? i = some a) : t.set i a = t := by
  rw [get?_eq_getElem?] at h
  obtain ⟨hlt, rfl⟩ := List.getElem?_eq_some_iff.mp h
  apply toList_injective
  rw [toList_set, List.set_getElem_self]

lemma map_set (f : α → β) (t : Tuple α n) (i : Nat) (b : α) :
    (t.set i b).map f = (t.map f).set i (f b) := by
  apply toList_injective
  rw [toList_map, toList_set, toList_set, toList_map, List.map_set]

/-- An element stands between others, and setting it leaves these as they are. -/
lemma exists_split (h : t.get? i = some a) :
    ∃ before after, t.toList = before ++ a :: after ∧
      ∀ b, (t.set i b).toList = before ++ b :: after := by
  rw [get?_eq_getElem?] at h
  obtain ⟨hlt, rfl⟩ := List.getElem?_eq_some_iff.mp h
  refine ⟨t.toList.take i, t.toList.drop (i + 1), ?_, ?_⟩
  · rw [← List.drop_eq_getElem_cons hlt, List.take_append_drop]
  · intro b
    rw [toList_set, List.set_eq_take_append_cons_drop, if_pos hlt]

end Tuple

namespace Tree

lemma descendant?_step (t : Tree) (index : Nat) (path : List Nat) :
    t.descendant? (index :: path) = (t.child? index).bind (·.descendant? path) := rfl

lemma descendant?_append (t : Tree) (path path' : List Nat) :
    t.descendant? (path ++ path') = (t.descendant? path).bind (·.descendant? path') := by
  induction path generalizing t with
  | nil => rfl
  | cons index path ih =>
    rw [List.cons_append, descendant?_step, descendant?_step, Option.bind_assoc]
    congr 1
    funext child
    exact ih child

lemma descendant?_singleton (t : Tree) (index : Nat) : t.descendant? [index] = t.child? index := by
  rw [descendant?_step]
  exact Option.bind_fun_some _

lemma descendant?_slot {t n : Tree} {path : List Nat} (hn : t.descendant? path = some n)
    (index : Nat) : t.descendant? (path ++ [index]) = n.child? index := by
  rw [descendant?_append, hn, Option.bind_some, descendant?_singleton]

lemma editAt_step (edit : Tree → Change Tree SlotError (Option Tree)) (t : Tree) (index : Nat)
    (path : List Nat) :
    t.editAt edit (index :: path) =
      (t.child? index).bind fun child =>
        (child.editAt edit path).map (·.within (t.withChild index)) := by
  simp only [Option.map_eq_bind]
  rfl

/-- The second tree is the first one with `new` instead of `old` in a slot of the node at the end
of a path. -/
inductive Regrafts (index : Nat) (old new : Option Tree) : List Nat → Tree → Tree → Prop
  | atRoot (op : Operation) {slots : Slots Tree op.arity} (hslot : slots.get? index = some old) :
    Regrafts index old new [] (function op slots) (function op (slots.set index new))
  | inChild (op : Operation) {slots : Slots Tree op.arity} {step : Nat} {path : List Nat}
    {child child' : Tree} (hchild : slots.get? step = some (some child))
    (h : Regrafts index old new path child child') :
    Regrafts index old new (step :: path) (function op slots)
      (function op (slots.set step (some child')))

section Regrafts

variable {index : Nat} {old new : Option Tree} {path : List Nat} {t t' s s' : Tree}

lemma Regrafts.of_slot {op : Operation} {slots : Slots Tree op.arity}
    (hn : t.descendant? path = some (function op slots)) (hslot : slots.get? index = some old)
    (new : Option Tree) : ∃ t', Regrafts index old new path t t' := by
  induction path generalizing t with
  | nil =>
    cases hn
    exact ⟨_, .atRoot op hslot⟩
  | cons step path ih =>
    obtain ⟨child, hchild, hn⟩ := Option.bind_eq_some_iff.mp hn
    obtain ⟨child', hregrafts⟩ := ih hn
    cases t with
    | terminal x => cases hchild
    | function op' slots' =>
      exact ⟨_, .inChild op' (Option.join_eq_some_iff.mp hchild) hregrafts⟩

lemma exists_regrafts (h : t.descendant? (path ++ [index]) = some s) (new : Option Tree) :
    ∃ t', Regrafts index (some s) new path t t' := by
  rw [descendant?_append, Option.bind_eq_some_iff] at h
  obtain ⟨n, hn, hs⟩ := h
  rw [descendant?_singleton] at hs
  cases n with
  | terminal x => cases hs
  | function op slots => exact Regrafts.of_slot hn (Option.join_eq_some_iff.mp hs) new

/-- What one edit of a slot has put there, the next one finds. -/
lemma Regrafts.again (h : Regrafts index old new path t t') (new' : Option Tree) :
    ∃ t'', Regrafts index new new' path t' t'' ∧ Regrafts index old new' path t t'' := by
  induction h with
  | @atRoot op slots hslot =>
    refine ⟨function op (slots.set index new'), ?_, .atRoot op hslot⟩
    rw [← Tuple.set_set slots index new new']
    exact .atRoot op (Tuple.get?_set_self hslot new)
  | @inChild op slots step path child child' hchild _ ih =>
    obtain ⟨child'', hagain, hboth⟩ := ih
    refine ⟨function op (slots.set step (some child'')), ?_, .inChild op hchild hboth⟩
    rw [← Tuple.set_set slots step (some child') (some child'')]
    exact .inChild op (Tuple.get?_set_self hchild _) hagain

/-- Editing a slot leads from the one tree to the other and hands back what was in the slot. -/
lemma Regrafts.editAt (h : Regrafts index old new path t t') :
    t.editAt (·.exchange index new) path = some ⟨.ok old, t'⟩ := by
  induction h with
  | @atRoot op slots hslot =>
    have hslots : Slots.exchange slots index new = ⟨.ok old, slots.set index new⟩ := by
      rw [Slots.exchange, hslot]
    rw [Tree.editAt, exchange, hslots]
    rfl
  | @inChild op slots step path child child' hchild _ ih =>
    have hchild' : (function op slots).child? step = some child := by
      rw [child?, Slots.child?, hchild]
      rfl
    rw [editAt_step, hchild', Option.bind_some, ih]
    rfl

lemma Regrafts.setChildAt (h : Regrafts index old (some s) path t t') :
    t.setChildAt path index s = some (.ok ⟨t', old⟩) := by
  rw [Tree.setChildAt, h.editAt]
  rfl

lemma Regrafts.takeChildAt (h : Regrafts index old none path t t') :
    t.takeChildAt path index = some (.ok ⟨t', old⟩) := by
  rw [Tree.takeChildAt, h.editAt]
  rfl

/-- What is computed from the bottom up tells no difference between trees that differ in a child
for which the results are the same. -/
lemma Regrafts.fold_eq {β : Type} {leaf : Terminal → β}
    {node : (op : Operation) → Slots β op.arity → β}
    (h : Regrafts index (some s) (some s') path t t')
    (hsame : fold leaf node s = fold leaf node s') : fold leaf node t = fold leaf node t' := by
  have hslots : ∀ (op : Operation) {slots : Slots Tree op.arity} {i : Nat} {child child' : Tree},
      slots.get? i = some (some child) → fold leaf node child = fold leaf node child' →
      fold leaf node (function op slots) =
        fold leaf node (function op (slots.set i (some child'))) := by
    intro op slots i child child' hchild hfold
    have hset : slots.set i (some child) = slots := Tuple.set_of_get? hchild
    rw [fold_function, fold_function, Tuple.map_set, Option.map_some, ← hfold, ← Option.map_some,
      ← Tuple.map_set, hset]
  induction h with
  | atRoot op hslot => exact hslots op hslot hsame
  | inChild op hchild _ ih => exact hslots op hchild ih

/-! ### Heights -/

/-- How far a slot reaches below its node. -/
def slotHeight : Option Tree → Nat
  | none => 0
  | some child => child.height

lemma height_function (op : Operation) (slots : Slots Tree op.arity) :
    (function op slots).height = 1 + (slots.toList.map slotHeight).foldr max 0 := by
  have hchildren : ∀ row : List (Option Tree),
      ((row.filterMap id).map height).foldr max 0 = (row.map slotHeight).foldr max 0 := by
    intro row
    induction row with
    | nil => rfl
    | cons slot row ih =>
      cases slot with
      | none =>
        change ((row.filterMap id).map height).foldr max 0 = max 0 _
        rw [ih, Nat.zero_max]
      | some child =>
        change max child.height (((row.filterMap id).map height).foldr max 0) = max child.height _
        rw [ih]
  rw [height_eq, children, Slots.children, hchildren]

lemma foldr_max_split (before after : List Nat) (k : Nat) :
    (before ++ k :: after).foldr max 0 = max ((before ++ after).foldr max 0) k := by
  induction before with
  | nil =>
    change max k (after.foldr max 0) = max (after.foldr max 0) k
    exact max_comm _ _
  | cons l before ih =>
    change max l ((before ++ k :: after).foldr max 0) =
      max (max l ((before ++ after).foldr max 0)) k
    rw [ih, max_assoc]

/-- The height of a node splits into the one slot and the others. -/
lemma exists_height_eq {op : Operation} {slots : Slots Tree op.arity} {i : Nat}
    {slot : Option Tree} (h : slots.get? i = some slot) :
    ∃ others, (function op slots).height = 1 + max others (slotHeight slot) ∧
      ∀ slot', (function op (slots.set i slot')).height = 1 + max others (slotHeight slot') := by
  obtain ⟨before, after, hslots, hset⟩ := Tuple.exists_split h
  refine ⟨((before ++ after).map slotHeight).foldr max 0, ?_, ?_⟩
  · rw [height_function, hslots, List.map_append, List.map_cons, foldr_max_split, List.map_append]
  · intro slot'
    rw [height_function, hset, List.map_append, List.map_cons, foldr_max_split, List.map_append]

/-- A child put into an empty slot reaches as far down as the slot is deep and the child high. -/
lemma Regrafts.height_eq (h : Regrafts index none (some s) path t t') :
    t'.height = max t.height (path.length + 1 + s.height) := by
  induction h with
  | atRoot op hslot =>
    obtain ⟨others, hempty, hset⟩ := exists_height_eq hslot
    have hfull := hset (some s)
    simp only [slotHeight] at hempty hfull
    rw [hempty, hfull, List.length_nil]
    omega
  | @inChild op slots step path child child' hchild _ ih =>
    obtain ⟨others, hempty, hset⟩ := exists_height_eq hchild
    have hfull := hset (some child')
    simp only [slotHeight] at hempty hfull
    rw [hempty, hfull, ih, List.length_cons]
    omega

/-! ### Types -/

lemma exists_kind_set {op : Operation} {slots : Slots Tree op.arity} {i : Nat} {child child' : Tree}
    {k l : Kind} (hchild : slots.get? i = some (some child))
    (hk : (function op slots).infer = .ok (.numeric k)) (hl : child'.infer = .ok (.numeric l)) :
    ∃ k', (function op (slots.set i (some child'))).infer = .ok (.numeric k') := by
  obtain ⟨before, after, hslots, hset⟩ := Tuple.exists_split hchild
  obtain ⟨kinds, hkinds, _⟩ := infer_function_eq_ok_iff.mp hk
  rw [hslots] at hkinds
  have hslot : ∀ slot ∈ (slots.set i (some child')).toList, ∃ m, SlotHasKind slot m := by
    intro slot hmem
    rw [hset, List.mem_append, List.mem_cons] at hmem
    obtain hbefore | rfl | hafter := hmem
    · obtain ⟨m, _, hm⟩ := forall₂_mem_left hkinds (List.mem_append_left _ hbefore)
      exact ⟨m, hm⟩
    · exact ⟨l, child', rfl, hl⟩
    · obtain ⟨m, _, hm⟩ :=
        forall₂_mem_left hkinds (List.mem_append_right _ (List.mem_cons_of_mem _ hafter))
      exact ⟨m, hm⟩
  obtain ⟨kinds', hkinds'⟩ := exists_forall₂ hslot
  obtain ⟨k', hk'⟩ := op.exists_resultKind (by rw [← hkinds'.length_eq, Tuple.length_toList])
  exact ⟨k', infer_function_eq_ok_iff.mpr ⟨kinds', hkinds', k', hk', rfl⟩⟩

/-- A numeric tree stays numeric when a numeric child takes the place of another one. -/
lemma Regrafts.exists_kind (h : Regrafts index (some s) (some s') path t t') {k l : Kind}
    (hk : t.infer = .ok (.numeric k)) (hl : s'.infer = .ok (.numeric l)) :
    ∃ k', t'.infer = .ok (.numeric k') := by
  induction h generalizing k with
  | atRoot op hslot => exact exists_kind_set hslot hk hl
  | inChild op hchild _ ih =>
    have hmem := Slots.mem_children_of_child? (Option.join_eq_some_iff.mpr hchild)
    obtain ⟨m, hm, _⟩ := infer_child_le hk hmem
    obtain ⟨m', hm'⟩ := ih hm
    exact exists_kind_set hchild hk hm'

end Regrafts

/-! ### Crossover -/

/-- A tree after the child in a slot below its root was taken out and another one put there. -/
structure Regraft (t : Tree) (path : List Nat) (index : Nat) (old new : Tree) where
  rest : Tree
  result : Tree
  take_eq : t.takeChildAt path index = some (.ok ⟨rest, some old⟩)
  set_eq : rest.setChildAt path index new = some (.ok ⟨result, none⟩)

/-- Nothing but the depth of the result keeps it from having a type. -/
structure Regraft.Sound {t old new : Tree} {path : List Nat} {index : Nat}
    (r : Regraft t path index old new) (limits : Limits) : Prop where
  depth_eq : r.result.depth = max r.rest.depth ((path ++ [index]).length + new.depth)
  accepted_iff : (∃ type, r.result.inferWithin limits = .ok type) ↔
    r.result.depth ≤ limits.maxDepth
  rejected : limits.maxDepth < r.result.depth →
    r.result.inferWithin limits = .error (.depthExceeded r.result.depth limits.maxDepth)
  same_type : old.inferWithin limits = new.inferWithin limits →
    ∀ type, r.result.inferWithin limits = .ok type → t.inferWithin limits = .ok type

lemma exists_kind_of_descendant {t s : Tree} {path : List Nat} {index : Nat} {limits : Limits}
    {type : ValueType} (h : t.inferWithin limits = .ok type)
    (hs : t.descendant? (path ++ [index]) = some s) :
    ∃ k l, t.infer = .ok (.numeric k) ∧ s.infer = .ok (.numeric l) ∧
      s.inferWithin limits = .ok (.numeric l) := by
  obtain ⟨hheight, hinfer⟩ := inferWithin_eq_ok_iff.mp h
  cases t with
  | terminal x => cases path <;> cases hs
  | function op slots =>
    obtain ⟨k, rfl⟩ := exists_kind_of_infer_function hinfer
    obtain ⟨l, hl, _⟩ := infer_descendant_le hinfer hs
    have hheight' : s.height ≤ limits.maxDepth := (height_descendant_le hs).trans hheight
    exact ⟨k, l, hinfer, hl, inferWithin_eq_ok_iff.mpr ⟨hheight', hl⟩⟩

lemma exists_sound_regraft {t old new : Tree} {path : List Nat} {index : Nat} {limits : Limits}
    {type : ValueType} {l : Kind} (h : t.inferWithin limits = .ok type)
    (hold : t.descendant? (path ++ [index]) = some old)
    (hnew : new.inferWithin limits = .ok (.numeric l)) :
    ∃ r : Regraft t path index old new, r.Sound limits := by
  obtain ⟨rest, htake⟩ := exists_regrafts hold none
  obtain ⟨result, hset, hboth⟩ := htake.again (some new)
  obtain ⟨k, m, hk, hm, hm'⟩ := exists_kind_of_descendant h hold
  obtain ⟨_, hnew'⟩ := inferWithin_eq_ok_iff.mp hnew
  obtain ⟨k', hk'⟩ := hboth.exists_kind hk hnew'
  refine ⟨⟨rest, result, htake.takeChildAt, hset.setChildAt⟩, ?_, ?_, ?_, ?_⟩
  · rw [depth_eq_height, depth_eq_height, depth_eq_height, List.length_append,
      List.length_singleton]
    exact hset.height_eq
  · rw [depth_eq_height]
    simp only [inferWithin_eq_ok_iff, hk', exists_and_left, and_iff_left_iff_imp]
    exact fun _ => ⟨_, rfl⟩
  · rw [depth_eq_height]
    exact inferWithin_of_lt_height
  · intro hsame type' hresult
    rw [hm', hnew] at hsame
    cases hsame
    have hfold : t.infer = result.infer := hboth.fold_eq (hm.trans hnew'.symm)
    obtain ⟨_, hinfer'⟩ := inferWithin_eq_ok_iff.mp hresult
    obtain ⟨hheight, _⟩ := inferWithin_eq_ok_iff.mp h
    exact inferWithin_eq_ok_iff.mpr ⟨hheight, hfold.trans hinfer'⟩

/-- Exchanging proper subtrees of two well-typed trees succeeds and leaves two trees that are
well-typed as far as they fit the limit. -/
theorem crossover_keeps_types {limits : Limits} {t₁ t₂ s₁ s₂ : Tree} {path₁ path₂ : List Nat}
    {index₁ index₂ : Nat} {type₁ type₂ : ValueType}
    (ht₁ : t₁.inferWithin limits = .ok type₁) (ht₂ : t₂.inferWithin limits = .ok type₂)
    (hs₁ : t₁.descendant? (path₁ ++ [index₁]) = some s₁)
    (hs₂ : t₂.descendant? (path₂ ++ [index₂]) = some s₂) :
    (∃ r : Regraft t₁ path₁ index₁ s₁ s₂, r.Sound limits) ∧
    ∃ r : Regraft t₂ path₂ index₂ s₂ s₁, r.Sound limits := by
  obtain ⟨_, _, _, _, hl₁⟩ := exists_kind_of_descendant ht₁ hs₁
  obtain ⟨_, _, _, _, hl₂⟩ := exists_kind_of_descendant ht₂ hs₂
  exact ⟨exists_sound_regraft ht₁ hs₁ hl₂, exists_sound_regraft ht₂ hs₂ hl₁⟩

/-- A leaf of a full tree changes places with a quotient, and the tree becomes too deep. -/
theorem crossover_keeps_types_too_deep :
    let x : Variable := ⟨"x", .numeric .int32, 0⟩
    let two := ofValue (.number (.int32 2))
    let quotient := division (.zero false) (some (ofVariable x)) (some two)
    let t₁ := division (.zero true) (some quotient) (some (ofValue (.number (.int64 3))))
    let t₂ := power (some (ofValue (.number (.float64 (.zero true))))) (some quotient) (some two)
    t₁.inferWithin ⟨3⟩ = .ok (.numeric .int64) ∧ t₂.inferWithin ⟨3⟩ = .ok (.numeric .float64) ∧
    t₁.descendant? ([0] ++ [1]) = some two ∧ t₂.descendant? ([] ++ [1]) = some quotient ∧
    (∃ r : Regraft t₁ [0] 1 two quotient, r.Sound ⟨3⟩) ∧
    (∃ r : Regraft t₂ [] 1 quotient two, r.Sound ⟨3⟩) := by
  intro x two quotient t₁ t₂
  have ht₁ : t₁.inferWithin ⟨3⟩ = .ok (.numeric .int64) :=
    inferWithin_eq_ok_iff.mpr ⟨by decide, rfl⟩
  have ht₂ : t₂.inferWithin ⟨3⟩ = .ok (.numeric .float64) :=
    inferWithin_eq_ok_iff.mpr ⟨by decide, rfl⟩
  have hs₁ : t₁.descendant? ([0] ++ [1]) = some two := rfl
  have hs₂ : t₂.descendant? ([] ++ [1]) = some quotient := rfl
  exact ⟨ht₁, ht₂, hs₁, hs₂, crossover_keeps_types ht₁ ht₂ hs₁ hs₂⟩

end Tree

end NumericTrees
