import NumericTrees.Proofs.Positions

/-!
# Edits of slots

An edit puts a child into a slot or takes it out, at any node of a tree. It changes what lies in
that slot and nothing else, it can be undone with what it handed back, and where there is no such
slot it changes nothing. All of this is said of single positions, so that edits of slots that lie
apart commute: no position is in the reach of both.
-/

namespace NumericTrees.Tree

/-- Something to put into a slot: a child, or nothing in order to take the child out. -/
structure Edit where
  path : List Nat
  index : Nat
  occupant : Option Tree

/-- The position of the slot that an edit is about. -/
def Edit.slot (e : Edit) : List Nat := e.path ++ [e.index]

/-- What an edit answers, which is nothing where its path leads nowhere, and the tree after it. -/
def perform (t : Tree) (e : Edit) : Option (Except SlotError (Option Tree)) × Tree :=
  match t.editAt (·.exchange e.index e.occupant) e.path with
  | some edited => (some edited.answer, edited.state)
  | none => (none, t)

/-- Two trees hold the same wherever a position does not lie in the slot. -/
def AgreeOutside (slot : List Nat) (s t : Tree) : Prop :=
  ∀ path, ¬ slot <+: path → s.label? path = t.label? path

/-- The node at the end of a path has a slot of the index. -/
def HasSlot (t : Tree) (path : List Nat) (index : Nat) : Prop :=
  ∃ op : Operation, t.label? path = some (.inr op) ∧ index < op.arity

section Regrafts

variable {index : Nat} {old new : Option Tree} {path : List Nat} {t t' : Tree}

lemma Regrafts.symm (h : Regrafts index old new path t t') : Regrafts index new old path t' t := by
  induction h with
  | @atRoot op slots hslot =>
    have hback : Regrafts index new old [] (function op (slots.set index new))
        (function op ((slots.set index new).set index old)) :=
      .atRoot op (Tuple.get?_set_self hslot new)
    rw [Tuple.set_set, Tuple.set_of_get? hslot] at hback
    exact hback
  | @inChild op slots step path child child' hchild _ ih =>
    have hback := Regrafts.inChild op (Tuple.get?_set_self hchild (some child')) ih
    rw [Tuple.set_set, Tuple.set_of_get? hchild] at hback
    exact hback

/-- In the slot stands what was put there. -/
lemma Regrafts.descendant?_slot (h : Regrafts index old new path t t') :
    t'.descendant? (path ++ [index]) = new := by
  induction h with
  | atRoot op hslot =>
    rw [List.nil_append, descendant?_singleton, child?_function, Tuple.get?_set_self hslot,
      Option.join_some]
  | inChild op hchild _ ih =>
    rw [List.cons_append, descendant?_step, child?_function, Tuple.get?_set_self hchild,
      Option.join_some, Option.bind_some, ih]

lemma Regrafts.agreeOutside (h : Regrafts index old new path t t') :
    AgreeOutside (path ++ [index]) t' t := by
  -- Beside the way to the slot nothing was set, and along it only children gave way to others.
  induction h with
  | @atRoot op slots hslot =>
    rintro (_ | ⟨i, rest⟩) houtside
    · rfl
    · have hi : index ≠ i := by
        rintro rfl
        exact houtside ⟨rest, rfl⟩
      rw [label?_cons, label?_cons, child?_function, child?_function, Tuple.get?_set_ne hi]
  | @inChild op slots step path child child' hchild _ ih =>
    rintro (_ | ⟨i, rest⟩) houtside
    · rfl
    · rw [label?_cons, label?_cons, child?_function, child?_function]
      by_cases hi : step = i
      · subst hi
        rw [Tuple.get?_set_self hchild, hchild]
        apply ih
        intro hlies
        exact houtside (List.cons_prefix_cons.mpr ⟨rfl, hlies⟩)
      · rw [Tuple.get?_set_ne hi]

end Regrafts

/-! ### Refusals -/

lemma withChild_of_child? {t child : Tree} {index : Nat} (h : t.child? index = some child) :
    t.withChild index child = t := by
  cases t with
  | terminal x => cases h
  | function op slots => rw [withChild, Tuple.set_of_get? (Option.join_eq_some_iff.mp h)]

lemma exchange_atomic (t : Tree) (index : Nat) (occupant : Option Tree) :
    (t.exchange index occupant).Atomic t := by
  cases t with
  | terminal x => exact fun _ _ => rfl
  | function op slots => exact (Slots.exchange_atomic slots index occupant).within _

/-- An edit that is refused at its node leaves the whole tree as it was: every child on the way goes
back into its slot. -/
lemma editAt_atomic {edit : Tree → Change Tree SlotError (Option Tree)}
    (h : ∀ n, (edit n).Atomic n) {t : Tree} {path : List Nat}
    {edited : Change Tree SlotError (Option Tree)} (hedited : t.editAt edit path = some edited) :
    edited.Atomic t := by
  induction path generalizing t edited with
  | nil =>
    cases hedited
    exact h t
  | cons index path ih =>
    rw [editAt_step, Option.bind_eq_some_iff] at hedited
    obtain ⟨child, hchild, hedited⟩ := hedited
    obtain ⟨below, hbelow, rfl⟩ := Option.map_eq_some_iff.mp hedited
    have hwithin := (ih hbelow).within (t.withChild index)
    rwa [withChild_of_child? hchild] at hwithin

/-- The node at the end of the path answers. -/
lemma answer_editAt (edit : Tree → Change Tree SlotError (Option Tree)) (t : Tree)
    (path : List Nat) :
    (t.editAt edit path).map Change.answer =
      (t.descendant? path).map fun n => (edit n).answer := by
  induction path generalizing t with
  | nil => rfl
  | cons index path ih =>
    rw [editAt_step, descendant?_step, Option.map_bind, Option.map_bind]
    congr 1
    funext child
    rw [Function.comp, Function.comp, Option.map_map, ← ih]
    rfl

/-- An operation refuses the indices from its arity on, and a terminal refuses all. -/
lemma answer_exchange_of_le {n : Tree} {index : Nat}
    (h : ∀ op : Operation, n.label = .inr op → op.arity ≤ index) (occupant : Option Tree) :
    (n.exchange index occupant).answer = .error ⟨index, n.arity⟩ := by
  cases n with
  | terminal x => rfl
  | function op slots =>
    have hslot : slots.get? index = none := Tuple.get?_of_le (h op rfl)
    rw [exchange, Change.within, Slots.exchange, hslot]
    rfl

/-! ### Edits -/

lemma HasSlot.exists_regrafts {t : Tree} {path : List Nat} {index : Nat}
    (h : t.HasSlot path index) (new : Option Tree) :
    ∃ t', Regrafts index (t.descendant? (path ++ [index])) new path t t' := by
  obtain ⟨op, hlabel, hlt⟩ := h
  obtain ⟨n, hn, hop⟩ := Option.map_eq_some_iff.mp hlabel
  cases n with
  | terminal x => cases hop
  | function op' slots =>
    cases hop
    obtain ⟨old, hold⟩ := Option.isSome_iff_exists.mp (slots.get?_isSome_iff.mpr hlt)
    obtain ⟨t', hregrafts⟩ := Regrafts.of_slot hn hold new
    rw [hregrafts.symm.descendant?_slot]
    exact ⟨t', hregrafts⟩

/-- An edit of a slot that there is hands back what was in the slot, can be undone with that, and
changes what lies in the slot alone. -/
lemma HasSlot.editAt {t : Tree} {path : List Nat} {index : Nat} (h : t.HasSlot path index)
    (occupant : Option Tree) :
    ∃ t', t.editAt (·.exchange index occupant) path =
        some ⟨.ok (t.descendant? (path ++ [index])), t'⟩ ∧
      t'.descendant? (path ++ [index]) = occupant ∧ AgreeOutside (path ++ [index]) t' t ∧
      t'.editAt (·.exchange index (t.descendant? (path ++ [index]))) path =
        some ⟨.ok occupant, t⟩ := by
  obtain ⟨t', hregrafts⟩ := h.exists_regrafts occupant
  exact ⟨t', hregrafts.editAt, hregrafts.descendant?_slot, hregrafts.agreeOutside,
    hregrafts.symm.editAt⟩

section Perform

variable {t : Tree} {e : Edit}

lemma perform_answer (t : Tree) (e : Edit) :
    (t.perform e).1 =
      (t.descendant? e.path).map fun n => (n.exchange e.index e.occupant).answer := by
  rw [← answer_editAt, perform]
  cases t.editAt (·.exchange e.index e.occupant) e.path <;> rfl

/-- Whatever does not succeed changes nothing. -/
lemma perform_state_of_refused (h : ∀ displaced, (t.perform e).1 ≠ some (.ok displaced)) :
    (t.perform e).2 = t := by
  rw [perform] at h ⊢
  cases hedited : t.editAt (·.exchange e.index e.occupant) e.path with
  | none => rfl
  | some edited =>
    rw [hedited] at h
    cases hanswer : edited.answer with
    | ok displaced => exact absurd (congrArg some hanswer) (h displaced)
    | error failure => exact editAt_atomic (exchange_atomic · _ _) hedited failure hanswer

/-- Where there is no such slot an edit changes nothing, and its answer is told by the node. -/
lemma perform_of_not_hasSlot (h : ¬ t.HasSlot e.path e.index) :
    t.perform e =
      ((t.label? e.path).map fun label =>
        .error ⟨e.index, label.elim Terminal.arity Operation.arity⟩, t) := by
  have hanswer : (t.perform e).1 = (t.label? e.path).map fun label =>
      .error ⟨e.index, label.elim Terminal.arity Operation.arity⟩ := by
    rw [perform_answer, label?, Option.map_map]
    cases hn : t.descendant? e.path with
    | none => rfl
    | some n =>
      have hrefused : (n.exchange e.index e.occupant).answer = .error ⟨e.index, n.arity⟩ := by
        apply answer_exchange_of_le
        intro op hop
        by_contra hlt
        exact h ⟨op, by rw [label?, hn, Option.map_some, hop], Nat.lt_of_not_le hlt⟩
      rw [Option.map_some, hrefused, arity_eq]
      rfl
  have hstate : (t.perform e).2 = t := by
    apply perform_state_of_refused
    intro displaced hok
    rw [hanswer, Option.map_eq_some_iff] at hok
    obtain ⟨_, _, hok⟩ := hok
    cases hok
  rw [← hanswer]
  exact Prod.ext rfl hstate

lemma perform_of_hasSlot (h : t.HasSlot e.path e.index) :
    ∃ t', t.perform e = (some (.ok (t.descendant? e.slot)), t') ∧
      t'.descendant? e.slot = e.occupant ∧ AgreeOutside e.slot t' t ∧
      t'.perform ⟨e.path, e.index, t.descendant? e.slot⟩ = (some (.ok e.occupant), t) := by
  obtain ⟨t', hedit, hoccupant, houtside, hundo⟩ := h.editAt e.occupant
  refine ⟨t', ?_, hoccupant, houtside, ?_⟩
  · rw [perform, hedit]
    rfl
  · rw [perform, Edit.slot, hundo]

lemma perform_agreeOutside (t : Tree) (e : Edit) : AgreeOutside e.slot (t.perform e).2 t := by
  by_cases h : t.HasSlot e.path e.index
  · obtain ⟨t', hperform, _, houtside, _⟩ := perform_of_hasSlot h
    rw [hperform]
    exact houtside
  · rw [perform_of_not_hasSlot h]
    exact fun _ _ => rfl

/-- What an edit answers, and what it leaves in its slot, depends on the node of the slot and on
what lies in the slot alone. -/
lemma perform_congr {s : Tree} (hnode : s.label? e.path = t.label? e.path)
    (hslot : ∀ rest, s.label? (e.slot ++ rest) = t.label? (e.slot ++ rest)) :
    (s.perform e).1 = (t.perform e).1 ∧
    ∀ rest, (s.perform e).2.label? (e.slot ++ rest) = (t.perform e).2.label? (e.slot ++ rest) := by
  have hiff : s.HasSlot e.path e.index ↔ t.HasSlot e.path e.index := by
    rw [HasSlot, HasSlot, hnode]
  by_cases h : t.HasSlot e.path e.index
  · obtain ⟨s', hs, hs', _⟩ := perform_of_hasSlot (hiff.mpr h)
    obtain ⟨t', ht, ht', _⟩ := perform_of_hasSlot h
    rw [hs, ht, descendant?_eq_of_label? hslot]
    refine ⟨rfl, ?_⟩
    intro rest
    rw [label?_append, label?_append, hs', ht']
  · rw [perform_of_not_hasSlot h, perform_of_not_hasSlot (mt hiff.mp h), hnode]
    exact ⟨rfl, hslot⟩

end Perform

lemma not_prefix_append {slot slot' : List Nat} (h : ¬ slot <+: slot') (h' : ¬ slot' <+: slot)
    (rest : List Nat) : ¬ slot <+: slot' ++ rest := by
  intro hlies
  obtain hle | hle := List.prefix_or_prefix_of_prefix hlies (List.prefix_append slot' rest)
  · exact h hle
  · exact h' hle

/-- Where neither of two slots lies in the other, an edit of the one reaches neither the other slot
nor its node. -/
lemma perform_after {t : Tree} {e e' : Edit} (h : ¬ e.slot <+: e'.slot)
    (h' : ¬ e'.slot <+: e.slot) :
    ((t.perform e).2.perform e').1 = (t.perform e').1 ∧
    ∀ rest, ((t.perform e).2.perform e').2.label? (e'.slot ++ rest) =
      (t.perform e').2.label? (e'.slot ++ rest) := by
  apply perform_congr
  · apply perform_agreeOutside
    intro hlies
    exact h (hlies.trans (List.prefix_append _ _))
  · intro rest
    exact perform_agreeOutside t e _ (not_prefix_append h h' rest)

/-- Edits of slots that lie apart commute, and answer the same in both orders. -/
lemma perform_comm (t : Tree) {e e' : Edit} (h : ¬ e.slot <+: e'.slot)
    (h' : ¬ e'.slot <+: e.slot) :
    ∃ u, (t.perform e).2.perform e' = ((t.perform e').1, u) ∧
      (t.perform e').2.perform e = ((t.perform e).1, u) := by
  obtain ⟨hanswer, hinside⟩ := perform_after (t := t) h h'
  obtain ⟨hanswer', hinside'⟩ := perform_after (t := t) h' h
  have htrees : ((t.perform e').2.perform e).2 = ((t.perform e).2.perform e').2 := by
    apply eq_of_label?
    intro path
    by_cases hin : e.slot <+: path
    · obtain ⟨rest, rfl⟩ := hin
      rw [hinside', perform_agreeOutside _ e' _ (not_prefix_append h' h rest)]
    · rw [perform_agreeOutside _ e path hin]
      by_cases hin' : e'.slot <+: path
      · obtain ⟨rest, rfl⟩ := hin'
        rw [hinside]
      · rw [perform_agreeOutside _ e' path hin', perform_agreeOutside _ e' path hin',
          perform_agreeOutside _ e path hin]
  refine ⟨((t.perform e).2.perform e').2, ?_, ?_⟩
  · rw [← hanswer]
  · rw [← hanswer', ← htrees]

lemma hasSlot_iff {t n : Tree} {path : List Nat} (hhost : t.HostFree)
    (hn : t.descendant? path = some n) (index : Nat) :
    t.HasSlot path index ↔ index < n.arity := by
  have hfree := hhost.descendant hn
  rw [HasSlot, label?, hn, Option.map_some, arity_eq]
  cases n with
  | terminal x =>
    have hx := hfree x (by simp)
    cases x with
    | literal l => simp [label, Terminal.arity]
    | var v => simp [label, Terminal.arity]
    | host h => cases hx
  | function op slots => simp [label]

/-- An edit of a slot hands back what was there, puts in what it was given, leaves every position
outside of the slot as it was, and is undone by putting back what it handed back. An index that is
no slot is refused, and the tree stays. Edits of slots that lie apart commute. -/
theorem edit_is_exact_and_local {t n : Tree} {path : List Nat} (hhost : t.HostFree)
    (hn : t.descendant? path = some n) (index : Nat) :
    (index < n.arity → ∀ occupant, ∃ t',
      t.perform ⟨path, index, occupant⟩ = (some (.ok (n.child? index)), t') ∧
      t'.descendant? (path ++ [index]) = occupant ∧
      AgreeOutside (path ++ [index]) t' t ∧
      t'.perform ⟨path, index, n.child? index⟩ = (some (.ok occupant), t)) ∧
    (n.arity ≤ index → ∀ occupant,
      t.perform ⟨path, index, occupant⟩ = (some (.error ⟨index, n.arity⟩), t)) ∧
    ∀ e e' : Edit, ¬ e.slot <+: e'.slot → ¬ e'.slot <+: e.slot →
      ∃ u, (t.perform e).2.perform e' = ((t.perform e').1, u) ∧
        (t.perform e').2.perform e = ((t.perform e).1, u) := by
  refine ⟨?_, ?_, fun e e' h h' => perform_comm t h h'⟩
  · intro hlt occupant
    have hslot := (hasSlot_iff hhost hn index).mpr hlt
    obtain ⟨t', hperform, hoccupant, houtside, hundo⟩ :=
      perform_of_hasSlot (e := ⟨path, index, occupant⟩) hslot
    rw [Edit.slot, descendant?_slot hn] at hperform hundo
    exact ⟨t', hperform, hoccupant, houtside, hundo⟩
  · intro hle occupant
    have hslot : ¬ t.HasSlot path index :=
      mt (hasSlot_iff hhost hn index).mp (Nat.not_lt.mpr hle)
    rw [perform_of_not_hasSlot (e := ⟨path, index, occupant⟩) hslot, label?, hn, arity_eq]
    rfl

/-- In a power below a division an empty slot is filled and an index too far is refused, and both
children of the division are changed in either order. -/
theorem edit_is_exact_and_local_in_power :
    let x := ofVariable ⟨"x", .numeric .int32, 0⟩
    let two := ofValue (.number (.int32 2))
    let n := power (some two) none (some x)
    let t := division (.zero true) (some n) (some x)
    t.HostFree ∧ t.descendant? [0] = some n ∧
    (∃ t', t.perform ⟨[0], 1, some t⟩ = (some (.ok none), t') ∧
      t'.descendant? [0, 1] = some t ∧ AgreeOutside [0, 1] t' t ∧
      t'.perform ⟨[0], 1, none⟩ = (some (.ok (some t)), t)) ∧
    t.perform ⟨[0], 3, none⟩ = (some (.error ⟨3, 3⟩), t) ∧
    ∃ u, (t.perform ⟨[0], 2, none⟩).2.perform ⟨[], 1, some two⟩ =
        ((t.perform ⟨[], 1, some two⟩).1, u) ∧
      (t.perform ⟨[], 1, some two⟩).2.perform ⟨[0], 2, none⟩ =
        ((t.perform ⟨[0], 2, none⟩).1, u) := by
  intro x two n t
  have hhost : t.HostFree := by decide
  have hn : t.descendant? [0] = some n := rfl
  refine ⟨hhost, hn, ?_, ?_, ?_⟩
  · exact (edit_is_exact_and_local hhost hn 1).1 (by decide) (some t)
  · exact (edit_is_exact_and_local hhost hn 3).2.1 (by decide) none
  · exact (edit_is_exact_and_local hhost hn 0).2.2 _ _ (by decide) (by decide)

end NumericTrees.Tree
