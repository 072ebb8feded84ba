import Mathlib.Data.List.Perm.Basic
import Mathlib.Logic.Relation
import Mathlib.Order.Bounds.Basic
import NumericTrees.Proofs.Contents
import NumericTrees.Proofs.DepthLimit
import NumericTrees.Proofs.Widening
import NumericTrees.Tree.Edit

/-!
# Well-typed trees in closed form

Which trees have a type, and which one, without the recursion: every slot anywhere is taken, every
terminal is numeric, and the type is the widest kind of what meets in the tree, where a power counts
as a double whatever its operands are. From this the type of a tree bounds the types of its subtrees
and does not depend on the order of children.
-/

namespace NumericTrees

section Lists

variable {α β : Type} {R : α → β → Prop} {l : List α} {r : List β}

lemma exists_forall₂ (h : ∀ a ∈ l, ∃ b, R a b) : ∃ r, List.Forall₂ R l r := by
  induction l with
  | nil => exact ⟨[], .nil⟩
  | cons a l ih =>
    obtain ⟨b, hb⟩ := h a List.mem_cons_self
    obtain ⟨r, hr⟩ := ih fun a ha => h a (List.mem_cons_of_mem _ ha)
    exact ⟨b :: r, .cons hb hr⟩

/-- Related lists stay so when an element gives way to one that is related to as much. -/
lemma forall₂_replace {before after : List α} {a a' : α} (h : ∀ b, R a b → R a' b)
    (hr : List.Forall₂ R (before ++ a :: after) r) : List.Forall₂ R (before ++ a' :: after) r := by
  induction before generalizing r with
  | nil =>
    cases hr with
    | cons hab htail => exact .cons (h _ hab) htail
  | cons x before ih =>
    cases hr with
    | cons hxb htail => exact .cons hxb (ih htail)

lemma Tuple.exists_toList {n : Nat} (h : l.length = n) : ∃ t : Tuple α n, t.toList = l := by
  subst h
  exact ⟨.ofList l, Tuple.toList_ofList l⟩

end Lists

namespace Operation

lemma typeOf_eq_ok_iff {op : Operation} {types : List ValueType} {type : ValueType} :
    op.typeOf types = .ok type ↔ op.infer types = some type := by
  rw [typeOf]
  cases op.infer types <;> simp

end Operation

namespace Tree

/-- What a slot holds is there and has a numeric type of the kind. -/
def SlotHasKind (slot : Option Tree) (k : Kind) : Prop :=
  ∃ child, slot = some child ∧ child.infer = .ok (.numeric k)

/-- A function node has a type exactly when every slot holds a child of some kind, and then it is
the kind of the result for these. -/
lemma infer_function_eq_ok_iff {op : Operation} {slots : Slots Tree op.arity} {type : ValueType} :
    (function op slots).infer = .ok type ↔
      ∃ kinds : List Kind, List.Forall₂ SlotHasKind slots.toList kinds ∧
        ∃ k, op.resultKind? kinds = some k ∧ type = .numeric k := by
  rw [infer_function_eq_visit]
  constructor
  · intro h
    cases hvisit : Slots.visit (.missingChild op.identifier) infer 0 slots with
    | error e =>
      rw [hvisit] at h
      cases h
    | ok types =>
      rw [hvisit] at h
      have hinfer := Operation.typeOf_eq_ok_iff.mp h
      obtain ⟨kinds, hkinds, hk⟩ := (Operation.infer_eq_some_iff (by simp)).mp hinfer
      have hslots := Slots.visit_eq_ok_iff.mp hvisit
      rw [hkinds, List.forall₂_map_right_iff] at hslots
      exact ⟨kinds, hslots, hk⟩
  · rintro ⟨kinds, hslots, hk⟩
    have hlen : (kinds.map ValueType.numeric).length = op.arity := by
      rw [List.length_map, ← hslots.length_eq, Tuple.length_toList]
    obtain ⟨types, htypes⟩ := Tuple.exists_toList hlen
    have hvisit : Slots.visit (.missingChild op.identifier) infer 0 slots = .ok types := by
      rw [Slots.visit_eq_ok_iff, htypes, List.forall₂_map_right_iff]
      exact hslots
    have hinfer : op.infer types.toList = some type := by
      rw [htypes, Operation.infer_eq_some_iff hlen]
      exact ⟨kinds, rfl, hk⟩
    rw [hvisit]
    exact Operation.typeOf_eq_ok_iff.mpr hinfer

/-- Whether every terminal of a tree is numeric. -/
def AllNumeric (t : Tree) : Prop := ∀ x ∈ t.terminals, ∃ k, x.type? = some (.numeric k)

/-- The kinds that meet in a tree: those of its terminals, and of every power the doubles. -/
def kindsIn (t : Tree) : Set Kind :=
  {k | (∃ x ∈ t.terminals, x.type? = some (.numeric k)) ∨ (.power ∈ t.operations ∧ k = .float64)}

lemma AllNumeric.child {op : Operation} {slots : Slots Tree op.arity} {child : Tree}
    (h : (function op slots).AllNumeric) (hchild : child ∈ Slots.children slots) :
    child.AllNumeric :=
  fun x hx => h x (mem_terminals_function.mpr ⟨child, hchild, hx⟩)

lemma mem_kindsIn_function {op : Operation} {slots : Slots Tree op.arity} {k : Kind} :
    k ∈ (function op slots).kindsIn ↔
      (∃ child ∈ Slots.children slots, k ∈ child.kindsIn) ∨ (op = .power ∧ k = .float64) := by
  simp only [kindsIn, Set.mem_ofPred_eq, mem_terminals_function, mem_operations_function]
  constructor
  · rintro (⟨x, ⟨child, hchild, hx⟩, hk⟩ | ⟨⟨child, hchild, hop⟩ | hop, hk⟩)
    · exact .inl ⟨child, hchild, .inl ⟨x, hx, hk⟩⟩
    · exact .inl ⟨child, hchild, .inr ⟨hop, hk⟩⟩
    · exact .inr ⟨hop.symm, hk⟩
  · rintro (⟨child, hchild, ⟨x, hx, hk⟩ | ⟨hop, hk⟩⟩ | ⟨hop, hk⟩)
    · exact .inl ⟨x, ⟨child, hchild, hx⟩, hk⟩
    · exact .inr ⟨.inl ⟨child, hchild, hop⟩, hk⟩
    · exact .inr ⟨.inr hop.symm, hk⟩

/-- With a power in it a tree computes in doubles, and otherwise in the widest kind of its
terminals. -/
lemma isGreatest_kindsIn {t : Tree} {k : Kind} (h : IsGreatest t.kindsIn k) :
    (.power ∈ t.operations → k = .float64) ∧
    (.power ∉ t.operations →
      IsGreatest {l | ∃ x ∈ t.terminals, x.type? = some (.numeric l)} k) := by
  constructor
  · intro hpower
    exact le_antisymm k.le_float64 (h.2 (.inr ⟨hpower, rfl⟩))
  · intro hpower
    refine ⟨h.1.resolve_right fun hk => hpower hk.1, ?_⟩
    exact fun l hl => h.2 (.inl hl)

/-- What the widest kinds in the children make of the node is the widest kind in the node. -/
lemma isGreatest_kindsIn_function {op : Operation} {slots : Slots Tree op.arity}
    {kinds : List Kind} {k : Kind} (hslots : List.Forall₂ SlotHasKind slots.toList kinds)
    (hchildren : ∀ child ∈ Slots.children slots, ∀ l, child.infer = .ok (.numeric l) →
      IsGreatest child.kindsIn l)
    (hk : op.resultKind? kinds = some k) : IsGreatest (function op slots).kindsIn k := by
  constructor
  · rw [mem_kindsIn_function]
    cases op with
    | division protection =>
      have hmem : k ∈ kinds := (List.max?_eq_some_iff.mp hk).1
      obtain ⟨slot, hslot, child, rfl, hinfer⟩ := forall₂_mem_right hslots hmem
      have hchild : child ∈ Slots.children slots := Slots.mem_children_iff.mpr hslot
      exact .inl ⟨child, hchild, (hchildren child hchild k hinfer).1⟩
    | power =>
      cases hk
      exact .inr ⟨rfl, rfl⟩
  · intro l hl
    obtain ⟨child, hchild, hlchild⟩ | ⟨rfl, rfl⟩ := mem_kindsIn_function.mp hl
    · obtain ⟨m, hm, _, hsome, hinfer⟩ :=
        forall₂_mem_left hslots (Slots.mem_children_iff.mp hchild)
      cases hsome
      have hlm : l ≤ m := (hchildren child hchild m hinfer).2 hlchild
      exact hlm.trans (Operation.le_of_resultKind? hk hm)
    · cases hk
      exact le_rfl

/-- A complete tree of numeric terminals has a numeric type. -/
lemma exists_infer_eq_numeric {t : Tree} (hhost : t.HostFree) (hcomplete : t.isComplete = true)
    (hnumeric : t.AllNumeric) : ∃ k, t.infer = .ok (.numeric k) := by
  induction t using Tree.induction with
  | terminal x =>
    obtain ⟨type, htype, hcheck⟩ := Terminal.check_of_not_host (hhost x (by simp))
    obtain ⟨k, hk⟩ := hnumeric x (by simp)
    rw [htype] at hk
    cases hk
    exact ⟨k, by rw [infer_terminal, hcheck]⟩
  | function op slots ih =>
    have hslot : ∀ slot ∈ slots.toList, ∃ k, SlotHasKind slot k := by
      intro slot hslot
      obtain ⟨child, rfl, hchild⟩ := isComplete_function.mp hcomplete slot hslot
      have hmem : child ∈ Slots.children slots := Slots.mem_children_iff.mpr hslot
      obtain ⟨k, hk⟩ := ih child hmem (hhost.child hmem) hchild (hnumeric.child hmem)
      exact ⟨k, child, rfl, hk⟩
    obtain ⟨kinds, hkinds⟩ := exists_forall₂ hslot
    obtain ⟨k, hk⟩ := op.exists_resultKind (by rw [← hkinds.length_eq, Tuple.length_toList])
    exact ⟨k, infer_function_eq_ok_iff.mpr ⟨kinds, hkinds, k, hk, rfl⟩⟩

/-- A tree of a numeric type is complete, its terminals are numeric, and the type is the widest
kind in it. -/
lemma of_infer_eq_numeric {t : Tree} (hhost : t.HostFree) {k : Kind}
    (h : t.infer = .ok (.numeric k)) :
    t.isComplete = true ∧ t.AllNumeric ∧ IsGreatest t.kindsIn k := by
  induction t using Tree.induction generalizing k with
  | terminal x =>
    obtain ⟨type, htype, hcheck⟩ := Terminal.check_of_not_host (hhost x (by simp))
    rw [infer_terminal, hcheck] at h
    cases h
    refine ⟨by simp, ?_, .inl ⟨x, by simp, htype⟩, ?_⟩
    · intro y hy
      rw [terminals_terminal, List.mem_singleton] at hy
      exact ⟨k, hy ▸ htype⟩
    · rintro l (⟨y, hy, hl⟩ | ⟨hop, _⟩)
      · rw [terminals_terminal, List.mem_singleton] at hy
        rw [hy, htype] at hl
        cases hl
        exact le_rfl
      · rw [operations_terminal] at hop
        cases hop
  | function op slots ih =>
    -- The children may be narrower than the node, so the induction is for every kind.
    obtain ⟨kinds, hslots, l, hl, heq⟩ := infer_function_eq_ok_iff.mp h
    cases heq
    have hchild : ∀ child ∈ Slots.children slots, ∀ m, child.infer = .ok (.numeric m) →
        child.isComplete = true ∧ child.AllNumeric ∧ IsGreatest child.kindsIn m :=
      fun child hmem m hm => ih child hmem (hhost.child hmem) hm
    refine ⟨?_, ?_, ?_⟩
    · rw [isComplete_function]
      intro slot hslot
      obtain ⟨m, _, child, rfl, hm⟩ := forall₂_mem_left hslots hslot
      exact ⟨child, rfl, (hchild child (Slots.mem_children_iff.mpr hslot) m hm).1⟩
    · intro x hx
      obtain ⟨child, hmem, hx⟩ := mem_terminals_function.mp hx
      obtain ⟨m, _, _, hsome, hm⟩ := forall₂_mem_left hslots (Slots.mem_children_iff.mp hmem)
      cases hsome
      exact (hchild child hmem m hm).2.1 x hx
    · exact isGreatest_kindsIn_function hslots
        (fun child hmem m hm => (hchild child hmem m hm).2.2) hl

lemma exists_kind_of_infer_function {op : Operation} {slots : Slots Tree op.arity}
    {type : ValueType} (h : (function op slots).infer = .ok type) : ∃ k, type = .numeric k := by
  obtain ⟨_, _, k, _, rfl⟩ := infer_function_eq_ok_iff.mp h
  exact ⟨k, rfl⟩

/-! ### Subtrees -/

lemma infer_child_le {op : Operation} {slots : Slots Tree op.arity} {k : Kind}
    (h : (function op slots).infer = .ok (.numeric k)) {child : Tree}
    (hchild : child ∈ Slots.children slots) :
    ∃ l, child.infer = .ok (.numeric l) ∧ l ≤ k := by
  obtain ⟨kinds, hslots, m, hm, heq⟩ := infer_function_eq_ok_iff.mp h
  cases heq
  obtain ⟨l, hl, _, hsome, hinfer⟩ :=
    forall₂_mem_left hslots (Slots.mem_children_iff.mp hchild)
  cases hsome
  exact ⟨l, hinfer, Operation.le_of_resultKind? hm hl⟩

lemma mem_children_of_child? {t child : Tree} {index : Nat} (h : t.child? index = some child) :
    child ∈ t.children := by
  cases t with
  | terminal x => cases h
  | function op slots => exact Slots.mem_children_of_child? h

lemma descendant?_cons {t s : Tree} {index : Nat} {path : List Nat}
    (h : t.descendant? (index :: path) = some s) :
    ∃ child ∈ t.children, child.descendant? path = some s := by
  obtain ⟨child, hchild, hs⟩ := Option.bind_eq_some_iff.mp h
  exact ⟨child, mem_children_of_child? hchild, hs⟩

/-- No subtree of a numeric tree is wider than the tree. -/
lemma infer_descendant_le {t s : Tree} {path : List Nat} {k : Kind}
    (h : t.infer = .ok (.numeric k)) (hs : t.descendant? path = some s) :
    ∃ l, s.infer = .ok (.numeric l) ∧ l ≤ k := by
  induction path generalizing t k with
  | nil =>
    cases hs
    exact ⟨k, h, le_rfl⟩
  | cons index path ih =>
    obtain ⟨child, hchild, hrest⟩ := descendant?_cons hs
    cases t with
    | terminal x => cases hchild
    | function op slots =>
      obtain ⟨l, hl, hle⟩ := infer_child_le h hchild
      obtain ⟨m, hm, hle'⟩ := ih hl hrest
      exact ⟨m, hm, hle'.trans hle⟩

lemma height_descendant_le {t s : Tree} {path : List Nat} (hs : t.descendant? path = some s) :
    s.height ≤ t.height := by
  induction path generalizing t with
  | nil =>
    cases hs
    exact le_rfl
  | cons index path ih =>
    obtain ⟨child, hchild, hs⟩ := descendant?_cons hs
    exact (ih hs).trans (height_lt_of_mem_children hchild).le

/-! ### Permuted children -/

/-- One node of a tree gets its children, and its empty slots, in another order. -/
inductive Permutes : Tree → Tree → Prop
  | atRoot (op : Operation) {slots slots' : Slots Tree op.arity}
    (h : slots.toList.Perm slots'.toList) : Permutes (function op slots) (function op slots')
  | inChild (op : Operation) {slots slots' : Slots Tree op.arity}
    {before after : List (Option Tree)} {child child' : Tree}
    (hslots : slots.toList = before ++ some child :: after)
    (hslots' : slots'.toList = before ++ some child' :: after) (h : Permutes child child') :
    Permutes (function op slots) (function op slots')

lemma Permutes.infer {t t' : Tree} (h : Permutes t t') {k : Kind}
    (hk : t.infer = .ok (.numeric k)) : t'.infer = .ok (.numeric k) := by
  induction h generalizing k with
  | atRoot op hperm =>
    obtain ⟨kinds, hslots, l, hl, heq⟩ := infer_function_eq_ok_iff.mp hk
    obtain ⟨kinds', hslots', hkinds⟩ := List.perm_comp_forall₂ hperm.symm hslots
    rw [op.resultKind?_perm hkinds.symm] at hl
    exact infer_function_eq_ok_iff.mpr ⟨kinds', hslots', l, hl, heq⟩
  | inChild op hslots hslots' _ ih =>
    obtain ⟨kinds, hkinds, hresult⟩ := infer_function_eq_ok_iff.mp hk
    rw [hslots] at hkinds
    refine infer_function_eq_ok_iff.mpr ⟨kinds, ?_, hresult⟩
    rw [hslots']
    refine forall₂_replace ?_ hkinds
    rintro m ⟨_, hsome, hm⟩
    cases hsome
    exact ⟨_, rfl, ih hm⟩

lemma height_function_congr {op : Operation} {slots slots' : Slots Tree op.arity}
    (h : ∀ n, (∀ child ∈ Slots.children slots, child.height ≤ n) ↔
      ∀ child ∈ Slots.children slots', child.height ≤ n) :
    (function op slots).height = (function op slots').height := by
  apply eq_of_forall_ge_iff
  intro n
  cases n with
  | zero =>
    have hpos := (function op slots).height_pos
    have hpos' := (function op slots').height_pos
    omega
  | succ n =>
    rw [height_le_succ_iff, height_le_succ_iff]
    exact h n

lemma Permutes.height_eq {t t' : Tree} (h : Permutes t t') : t.height = t'.height := by
  induction h with
  | atRoot op hperm =>
    apply height_function_congr
    intro n
    simp only [Slots.mem_children_iff, hperm.mem_iff]
  | inChild op hslots hslots' _ ih =>
    apply height_function_congr
    intro n
    simp only [Slots.mem_children_iff, hslots, hslots', List.mem_append, List.mem_cons,
      Option.some.injEq, or_imp, forall_and, forall_eq, ih]

lemma infer_permuted {t t' : Tree} (h : Relation.ReflTransGen Permutes t t') {k : Kind}
    (hk : t.infer = .ok (.numeric k)) : t'.infer = .ok (.numeric k) := by
  induction h with
  | refl => exact hk
  | tail _ hstep ih => exact hstep.infer ih

lemma height_permuted {t t' : Tree} (h : Relation.ReflTransGen Permutes t t') :
    t.height = t'.height := by
  induction h with
  | refl => rfl
  | tail _ hstep ih => exact ih.trans hstep.height_eq

lemma eq_of_terminal_permuted {x : Terminal} {t' : Tree}
    (h : Relation.ReflTransGen Permutes (terminal x) t') : t' = terminal x := by
  obtain rfl | ⟨_, hstep, _⟩ := h.cases_head
  · rfl
  · cases hstep

lemma inferWithin_eq_ok_iff {limits : Limits} {t : Tree} {type : ValueType} :
    t.inferWithin limits = .ok type ↔ t.height ≤ limits.maxDepth ∧ t.infer = .ok type := by
  by_cases h : t.height ≤ limits.maxDepth
  · rw [inferWithin_of_height_le h]
    exact ⟨fun hinfer => ⟨h, hinfer⟩, fun hinfer => hinfer.2⟩
  · rw [inferWithin_of_lt_height (Nat.not_le.mp h)]
    constructor
    · intro hinfer
      cases hinfer
    · exact fun hinfer => absurd hinfer.1 h

lemma exists_infer_eq_ok_iff {t : Tree} (hhost : t.HostFree) :
    (∃ type, t.infer = .ok type) ↔
      t.isComplete = true ∧ ((∃ x, t = terminal x) ∨ t.AllNumeric) := by
  constructor
  · rintro ⟨type, hinfer⟩
    cases t with
    | terminal x => exact ⟨isComplete_terminal x, .inl ⟨x, rfl⟩⟩
    | function op slots =>
      obtain ⟨k, rfl⟩ := exists_kind_of_infer_function hinfer
      obtain ⟨hcomplete, hnumeric, _⟩ := of_infer_eq_numeric hhost hinfer
      exact ⟨hcomplete, .inr hnumeric⟩
  · rintro ⟨hcomplete, ⟨x, rfl⟩ | hnumeric⟩
    · obtain ⟨type, _, hcheck⟩ := Terminal.check_of_not_host (hhost x (by simp))
      exact ⟨type, by rw [infer_terminal, hcheck]⟩
    · obtain ⟨k, hk⟩ := exists_infer_eq_numeric hhost hcomplete hnumeric
      exact ⟨.numeric k, hk⟩

lemma type?_of_infer_terminal {x : Terminal} (hhost : x.isHost = false) {type : ValueType}
    (h : (terminal x).infer = .ok type) : x.type? = some type := by
  obtain ⟨type', htype, hcheck⟩ := Terminal.check_of_not_host hhost
  rw [infer_terminal, hcheck] at h
  cases h
  exact htype

lemma exists_function_of_operations_ne_nil {t : Tree} (h : t.operations ≠ []) :
    ∃ op slots, t = function op slots := by
  cases t with
  | terminal x => exact absurd (operations_terminal x) h
  | function op slots => exact ⟨op, slots, rfl⟩

lemma inferWithin_permuted {limits : Limits} {t t' : Tree} {type : ValueType}
    (h : Relation.ReflTransGen Permutes t t') (hwithin : t.inferWithin limits = .ok type) :
    t'.inferWithin limits = .ok type := by
  cases t with
  | terminal x =>
    rw [eq_of_terminal_permuted h]
    exact hwithin
  | function op slots =>
    obtain ⟨hheight, hinfer⟩ := inferWithin_eq_ok_iff.mp hwithin
    obtain ⟨k, rfl⟩ := exists_kind_of_infer_function hinfer
    rw [height_permuted h] at hheight
    exact inferWithin_eq_ok_iff.mpr ⟨hheight, infer_permuted h hinfer⟩

/-- A tree is well-typed exactly when it is not too deep, no slot in it is empty, and it is a
terminal by itself or all its terminals are numeric. Its type is that of the terminal, or the
doubles where a power occurs, or the widest kind of a terminal. It is at least as wide as the type
of every subtree and stays the same however children are permuted. -/
theorem inferWithin_closed_form (limits : Limits) (t : Tree) (hhost : t.HostFree) :
    ((∃ type, t.inferWithin limits = .ok type) ↔
      t.depth ≤ limits.maxDepth ∧ t.isComplete = true ∧ ((∃ x, t = terminal x) ∨ t.AllNumeric)) ∧
    ∀ type, t.inferWithin limits = .ok type →
      (∀ x, t = terminal x → x.type? = some type) ∧
      (t.operations ≠ [] → ∃ k, type = .numeric k ∧
        (.power ∈ t.operations → k = .float64) ∧
        (.power ∉ t.operations →
          IsGreatest {l | ∃ x ∈ t.terminals, x.type? = some (.numeric l)} k) ∧
        ∀ path s, t.descendant? path = some s →
          ∃ l, s.inferWithin limits = .ok (.numeric l) ∧ l ≤ k) ∧
      ∀ t', Relation.ReflTransGen Permutes t t' → t'.inferWithin limits = .ok type := by
  constructor
  · rw [depth_eq_height, ← exists_infer_eq_ok_iff hhost]
    simp only [inferWithin_eq_ok_iff, exists_and_left]
  · intro type hwithin
    obtain ⟨hheight, hinfer⟩ := inferWithin_eq_ok_iff.mp hwithin
    refine ⟨?_, ?_, fun t' hpermuted => inferWithin_permuted hpermuted hwithin⟩
    · rintro x rfl
      exact type?_of_infer_terminal (hhost x (by simp)) hinfer
    · intro hoperations
      obtain ⟨op, slots, rfl⟩ := exists_function_of_operations_ne_nil hoperations
      obtain ⟨k, rfl⟩ := exists_kind_of_infer_function hinfer
      obtain ⟨_, _, hgreatest⟩ := of_infer_eq_numeric hhost hinfer
      obtain ⟨hpower, hterminals⟩ := isGreatest_kindsIn hgreatest
      refine ⟨k, rfl, hpower, hterminals, ?_⟩
      intro path s hs
      obtain ⟨l, hl, hle⟩ := infer_descendant_le hinfer hs
      have hheight' : s.height ≤ limits.maxDepth := (height_descendant_le hs).trans hheight
      exact ⟨l, inferWithin_eq_ok_iff.mpr ⟨hheight', hl⟩, hle⟩

theorem inferWithin_closed_form_mixed :
    let x : Variable := ⟨"x", .numeric .float32, 0⟩
    let quotient :=
      division (.zero false) (some (ofValue (.number (.int32 1)))) (some (ofVariable x))
    let t := division (.zero true) (some quotient) (some (ofValue (.number (.int64 2))))
    let t' := division (.zero true) (some (ofValue (.number (.int64 2)))) (some quotient)
    t.HostFree ∧ t.inferWithin ⟨3⟩ = .ok (.numeric .float32) ∧ t.operations ≠ [] ∧
    .power ∉ t.operations ∧ t.descendant? [1] = some (ofValue (.number (.int64 2))) ∧
    IsGreatest {l | ∃ x ∈ t.terminals, x.type? = some (.numeric l)} .float32 ∧
    Relation.ReflTransGen Permutes t t' ∧ t'.inferWithin ⟨3⟩ = .ok (.numeric .float32) := by
  intro x quotient t t'
  have hhost : t.HostFree := by decide
  have hwithin : t.inferWithin ⟨3⟩ = .ok (.numeric .float32) :=
    inferWithin_eq_ok_iff.mpr ⟨by decide, rfl⟩
  have hoperations : t.operations = [.division (.zero false), .division (.zero true)] := rfl
  have hne : t.operations ≠ [] := by
    rw [hoperations]
    exact List.cons_ne_nil _ _
  have hpower : .power ∉ t.operations := by
    rw [hoperations]
    simp
  have hpermuted : Relation.ReflTransGen Permutes t t' := .single (.atRoot _ (.swap _ _ _))
  obtain ⟨_, hfunction, hinvariant⟩ :=
    (inferWithin_closed_form ⟨3⟩ t hhost).2 (.numeric .float32) hwithin
  obtain ⟨k, heq, _, hgreatest, _⟩ := hfunction hne
  cases heq
  exact ⟨hhost, hwithin, hne, hpower, rfl, hgreatest hpower, hpermuted, hinvariant t' hpermuted⟩

end Tree

end NumericTrees
