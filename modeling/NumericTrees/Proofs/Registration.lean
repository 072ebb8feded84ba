import Mathlib.Data.List.Perm.Basic
import Mathlib.Tactic.Lemma
import NumericTrees.Registry

/-!
# Registering constructors

A registry after any registrations, those that were refused among them. Its entries are in order
all along, and in an ordered registry the search cuts the entries at the identifier: into what is in
front of it, its own entry if it has one, and what is behind. From the cut follows what registering
and making nodes do, and from the order that nothing is told by a registry but who came first.
-/

namespace NumericTrees

namespace Text

/-- One text is in front of another in the order of their bytes. -/
def Before (s t : String) : Prop := utf8 s < utf8 t

instance (s t : String) : Decidable (Before s t) := inferInstanceAs (Decidable (utf8 s < utf8 t))

lemma before_irrefl (s : String) : ¬ Before s s := List.lt_irrefl _

lemma Before.trans {s t u : String} (h : Before s t) (h' : Before t u) : Before s u :=
  List.lt_trans h h'

lemma Before.asymm {s t : String} (h : Before s t) : ¬ Before t s := List.lt_asymm h

lemma Before.ne {s t : String} (h : Before s t) : s ≠ t := by
  rintro rfl
  exact before_irrefl s h

lemma byteOrder_eq_lt {s t : String} : byteOrder s t = .lt ↔ Before s t := compareOfLessAndEq_eq_lt

lemma byteOrder_eq_eq {s t : String} : byteOrder s t = .eq ↔ s = t :=
  (compareOfLessAndEq_eq_eq List.le_refl List.not_le).trans
    ⟨utf8_injective, fun h => congrArg utf8 h⟩

lemma byteOrder_eq_gt {s t : String} : byteOrder s t = .gt ↔ Before t s :=
  compareOfLessAndEq_eq_gt List.le_antisymm List.le_total List.not_le _ _

end Text

/-! ### Search -/

/-- Below an index, the items in front of what is looked for come first and those behind it last. -/
structure Sorted (place : Nat → Ordering) (high : Nat) : Prop where
  lt_of_lt : ∀ i j, i < j → j < high → place j = .lt → place i = .lt
  gt_of_gt : ∀ i j, i < j → j < high → place i = .gt → place j = .gt

lemma bisect_eq_ok {place : Nat → Ordering} {low high i : Nat}
    (h : bisect place low high = .ok i) : i < high ∧ place i = .eq := by
  fun_induction bisect place low high with
  | case1 low high hlt middle hmiddle ih => exact ih h
  | case2 low high hlt middle hmiddle =>
    obtain rfl : middle = i := Except.ok.inj h
    exact ⟨by omega, hmiddle⟩
  | case3 low high hlt middle hmiddle ih =>
    obtain ⟨hi, heq⟩ := ih h
    exact ⟨by omega, heq⟩
  | case4 low high hle => cases h

/-- Where nothing is found, the items in front of the answer are those in front of what is looked
for. -/
lemma bisect_eq_error {place : Nat → Ordering} {low high i : Nat} (hsorted : Sorted place high)
    (hle : low ≤ high) (h : bisect place low high = .error i) :
    i ≤ high ∧ (∀ j, low ≤ j → j < i → place j = .lt) ∧
      ∀ j, i ≤ j → j < high → place j = .gt := by
  fun_induction bisect place low high with
  | case1 low high hlt middle hmiddle ih =>
    -- The middle item is in front, and with it all items on its left.
    obtain ⟨hi, hbelow, habove⟩ := ih hsorted (by omega) h
    refine ⟨hi, ?_, habove⟩
    intro j _ hj
    by_cases hright : middle < j
    · exact hbelow j hright hj
    · obtain rfl | hleft := Nat.eq_or_lt_of_le (Nat.le_of_not_lt hright)
      · exact hmiddle
      · exact hsorted.lt_of_lt j middle hleft (by omega) hmiddle
  | case2 low high hlt middle hmiddle => cases h
  | case3 low high hlt middle hmiddle ih =>
    have hmiddle_lt : middle < high := by omega
    have hsorted' : Sorted place middle :=
      ⟨fun a b hab hb => hsorted.lt_of_lt a b hab (Nat.lt_trans hb hmiddle_lt),
        fun a b hab hb => hsorted.gt_of_gt a b hab (Nat.lt_trans hb hmiddle_lt)⟩
    obtain ⟨hi, hbelow, habove⟩ := ih hsorted' (by omega) h
    refine ⟨by omega, hbelow, ?_⟩
    intro j hij hj
    by_cases hleft : j < middle
    · exact habove j hij hleft
    · obtain rfl | hright := Nat.eq_or_lt_of_le (Nat.le_of_not_lt hleft)
      · exact hmiddle
      · exact hsorted.gt_of_gt middle j hright hj hmiddle
  | case4 low high hnot =>
    cases h
    exact ⟨hle, fun j hj hj' => absurd hj' (Nat.not_lt.mpr hj), fun j hj hj' => by omega⟩

namespace Registry

/-- The identifiers stand in order, each of them once. -/
def Ordered (r : Registry) : Prop := r.identifiers.Pairwise Text.Before

section Ordered

variable {r : Registry}

lemma Ordered.pairwise (h : r.Ordered) : r.entries.Pairwise fun a b => Text.Before a.1 b.1 :=
  List.pairwise_map.mp h

lemma Ordered.sorted (h : r.Ordered) (id : String) :
    Sorted (fun index => (r.entries[index]?).elim .gt fun entry => Text.byteOrder entry.1 id)
      r.entries.length := by
  have hbefore : ∀ i j (hi : i < r.entries.length) (hj : j < r.entries.length), i < j →
      Text.Before r.entries[i].1 r.entries[j].1 := fun i j hi hj hij =>
    List.pairwise_iff_getElem.mp h.pairwise i j hi hj hij
  constructor
  case lt_of_lt =>
    intro i j hij hj hplace
    have hi : i < r.entries.length := Nat.lt_trans hij hj
    rw [List.getElem?_eq_getElem hj, Option.elim_some, Text.byteOrder_eq_lt] at hplace
    rw [List.getElem?_eq_getElem hi, Option.elim_some, Text.byteOrder_eq_lt]
    exact (hbefore i j hi hj hij).trans hplace
  case gt_of_gt =>
    intro i j hij hj hplace
    have hi : i < r.entries.length := Nat.lt_trans hij hj
    rw [List.getElem?_eq_getElem hi, Option.elim_some, Text.byteOrder_eq_gt] at hplace
    rw [List.getElem?_eq_getElem hj, Option.elim_some, Text.byteOrder_eq_gt]
    exact hplace.trans (hbefore i j hi hj hij)

lemma Ordered.position_spec (h : r.Ordered) (id : String) :
    (∃ before make after, r.entries = before ++ (id, make) :: after ∧
      r.position id = .ok before.length ∧ ∀ entry ∈ before, Text.Before entry.1 id) ∨
    ∃ before after, r.entries = before ++ after ∧ r.position id = .error before.length ∧
      (∀ entry ∈ before, Text.Before entry.1 id) ∧ ∀ entry ∈ after, Text.Before id entry.1 := by
  cases hposition : r.position id with
  | ok i =>
    obtain ⟨hi, hplace⟩ := bisect_eq_ok hposition
    rw [List.getElem?_eq_getElem hi, Option.elim_some, Text.byteOrder_eq_eq] at hplace
    have hcut : r.entries = r.entries.take i ++ (id, r.entries[i].2) :: r.entries.drop (i + 1) := by
      rw [← hplace, ← List.drop_eq_getElem_cons hi, List.take_append_drop]
    refine .inl ⟨_, _, _, hcut, ?_, ?_⟩
    · rw [List.length_take_of_le (Nat.le_of_lt hi)]
    · have hpairwise := h.pairwise
      rw [hcut, List.pairwise_append] at hpairwise
      exact fun entry hentry => hpairwise.2.2 entry hentry _ List.mem_cons_self
  | error i =>
    obtain ⟨hi, hbelow, habove⟩ := bisect_eq_error (h.sorted id) (Nat.zero_le _) hposition
    refine .inr ⟨r.entries.take i, r.entries.drop i, (List.take_append_drop ..).symm, ?_, ?_, ?_⟩
    · rw [List.length_take_of_le hi]
    · intro entry hentry
      obtain ⟨j, hj, rfl⟩ := List.mem_take_iff_getElem.mp hentry
      have hplace := hbelow j (Nat.zero_le _) (by omega)
      rwa [List.getElem?_eq_getElem (by omega), Option.elim_some, Text.byteOrder_eq_lt] at hplace
    · intro entry hentry
      obtain ⟨j, hj, rfl⟩ := List.mem_drop_iff_getElem.mp hentry
      have hplace := habove (i + j) (Nat.le_add_right ..) (by omega)
      rwa [List.getElem?_eq_getElem (by omega), Option.elim_some, Text.byteOrder_eq_gt] at hplace

/-- What the search and the entries say of an identifier: it has the entry that is looked up, or the
search ends where its entry would stand. -/
lemma Ordered.search_spec (h : r.Ordered) (id : String) :
    (∃ index make, r.position id = .ok index ∧ r.entries[index]? = some (id, make) ∧
      r.entries.lookup id = some make) ∨
    ∃ before after, r.entries = before ++ after ∧ r.position id = .error before.length ∧
      (∀ entry ∈ before, Text.Before entry.1 id) ∧ (∀ entry ∈ after, Text.Before id entry.1) ∧
      r.entries.lookup id = none := by
  obtain ⟨before, make, after, hcut, hposition, hbefore⟩ |
    ⟨before, after, hcut, hposition, hbefore, hafter⟩ := h.position_spec id
  · refine .inl ⟨before.length, make, hposition, ?_, ?_⟩
    · rw [hcut, List.getElem?_append_right (Nat.le_refl _), Nat.sub_self, List.getElem?_cons_zero]
    · rw [List.lookup_eq_some_iff]
      exact ⟨before, after, hcut, fun entry hentry => bne_iff_ne.mpr (hbefore entry hentry).ne.symm⟩
  · refine .inr ⟨before, after, hcut, hposition, hbefore, hafter, ?_⟩
    rw [hcut, List.lookup_eq_none_iff]
    intro entry hentry
    obtain hentry | hentry := List.mem_append.mp hentry
    · exact bne_iff_ne.mpr (hbefore entry hentry).ne.symm
    · exact bne_iff_ne.mpr (hafter entry hentry).ne

lemma Ordered.create_eq (h : r.Ordered) (id : String) :
    r.create id = (r.entries.lookup id).map fun make => make r.options := by
  unfold create
  obtain ⟨index, make, hposition, hentry, hlookup⟩ | ⟨_, _, _, hposition, _, _, hlookup⟩ :=
    h.search_spec id
  · rw [hposition, hlookup]
    dsimp only
    rw [hentry]
    rfl
  · rw [hposition, hlookup]
    rfl

lemma Ordered.contains_eq (h : r.Ordered) (id : String) :
    r.contains id = (r.entries.lookup id).isSome := by
  unfold contains
  obtain ⟨_, _, hposition, _, hlookup⟩ | ⟨_, _, _, hposition, _, _, hlookup⟩ := h.search_spec id
  · rw [hposition, hlookup]
    rfl
  · rw [hposition, hlookup]
    rfl

lemma mem_identifiers_iff {id : String} :
    id ∈ r.identifiers ↔ (r.entries.lookup id).isSome := by
  rw [identifiers, List.mem_map, List.lookup_isSome_iff]
  simp only [beq_iff_eq, @eq_comm _ id]

lemma insertIdx_length_append {α : Type} (front back : List α) (a : α) :
    (front ++ back).insertIdx front.length a = front ++ a :: back := by
  induction front with
  | nil => rfl
  | cons b front ih =>
    rw [List.cons_append, List.length_cons, List.insertIdx_succ_cons, ih, List.cons_append]

/-- Registering refuses an identifier that has an entry and leaves the registry as it is, and
otherwise puts the new entry in between the entries in front of it and those behind it. -/
lemma Ordered.enter_spec (h : r.Ordered) (id : String) (make : Constructor) :
    (id ∈ r.identifiers ∧ r.enter id make = ⟨.error (.duplicateIdentifier id), r⟩) ∨
    id ∉ r.identifiers ∧ ∃ before after, r.entries = before ++ after ∧
      r.enter id make = ⟨.ok (), r.options, before ++ (id, make) :: after⟩ ∧
      (∀ entry ∈ before, Text.Before entry.1 id) ∧ ∀ entry ∈ after, Text.Before id entry.1 := by
  unfold enter
  obtain ⟨index, _, hposition, _, hlookup⟩ |
    ⟨before, after, hcut, hposition, hbefore, hafter, hlookup⟩ := h.search_spec id
  · rw [hposition, mem_identifiers_iff, hlookup]
    exact .inl ⟨rfl, rfl⟩
  · rw [hposition, mem_identifiers_iff, hlookup]
    refine .inr ⟨Bool.false_ne_true, before, after, hcut, ?_, hbefore, hafter⟩
    dsimp only
    rw [hcut, insertIdx_length_append]

end Ordered

/-! ### Runs -/

/-- An identifier with the constructor that is to be registered under it. -/
abbrev Registration := String × Constructor

/-- The registry after a registration, also after one that was refused. -/
def registered (r : Registry) (call : Registration) : Registry := (r.enter call.1 call.2).state

def after (r : Registry) (calls : List Registration) : Registry := calls.foldl registered r

/-- The registrations that were not refused. -/
def accepted (r : Registry) : List Registration → List Registration
  | [] => []
  | call :: calls =>
    match (r.enter call.1 call.2).answer with
    | .ok _ => call :: accepted (r.registered call) calls
    | .error _ => accepted (r.registered call) calls

section Runs

variable {r : Registry}

lemma lookup_singleton_ne {id other : String} (h : other ≠ id) (make : Constructor) :
    [(id, make)].lookup other = none := by
  rw [List.lookup_cons, beq_eq_false_iff_ne.mpr h, List.lookup_nil]

lemma lookup_singleton_self (id : String) (make : Constructor) :
    [(id, make)].lookup id = some make := List.lookup_cons_self

lemma Ordered.registered_spec (h : r.Ordered) (call : Registration) :
    (r.registered call).Ordered ∧ (r.registered call).options = r.options ∧
    (r.registered call).entries.Perm (r.entries ++ r.accepted [call]) ∧
    ∀ id, (r.registered call).entries.lookup id = (r.entries ++ [call]).lookup id := by
  obtain ⟨id, make⟩ := call
  unfold registered accepted
  obtain ⟨hmem, hrefused⟩ | ⟨hmem, before, after, hcut, haccepted, hbefore, hafter⟩ :=
    h.enter_spec id make
  · rw [hrefused]
    refine ⟨h, rfl, ?_, ?_⟩
    · rw [accepted, List.append_nil]
    · intro other
      rw [List.lookup_append]
      by_cases hid : other = id
      · obtain ⟨make', hmake'⟩ := Option.isSome_iff_exists.mp (mem_identifiers_iff.mp hmem)
        rw [hid, hmake', Option.some_or]
      · rw [lookup_singleton_ne hid, Option.or_none]
  · rw [haccepted]
    refine ⟨?_, rfl, ?_, ?_⟩
    · have hpairwise := h.pairwise
      rw [hcut, List.pairwise_append] at hpairwise
      obtain ⟨hfront, hback, hcross⟩ := hpairwise
      apply List.pairwise_map.mpr
      rw [List.pairwise_append, List.pairwise_cons]
      refine ⟨hfront, ⟨hafter, hback⟩, ?_⟩
      intro a ha b hb
      obtain rfl | hb := List.mem_cons.mp hb
      · exact hbefore a ha
      · exact hcross a ha b hb
    · rw [accepted, hcut]
      exact List.perm_middle.trans (List.perm_append_singleton _ _).symm
    · intro other
      rw [hcut, List.append_cons before (id, make) after, List.lookup_append, List.lookup_append,
        List.lookup_append, List.lookup_append]
      by_cases hid : other = id
      · have hnone : (before ++ after).lookup id = none := by
          rw [← hcut]
          exact Option.not_isSome_iff_eq_none.mp (mt mem_identifiers_iff.mpr hmem)
        rw [List.lookup_append, Option.or_eq_none_iff] at hnone
        rw [hid, hnone.1, hnone.2, lookup_singleton_self]
        rfl
      · rw [lookup_singleton_ne hid, Option.or_none, Option.or_none]

lemma accepted_cons (r : Registry) (call : Registration) (calls : List Registration) :
    r.accepted (call :: calls) = r.accepted [call] ++ (r.registered call).accepted calls := by
  rw [accepted, accepted]
  cases (r.enter call.1 call.2).answer <;> rfl

/-- The entries after a run are those from before it and the accepted registrations, and what is
looked up is what was registered first. -/
lemma Ordered.after_spec (h : r.Ordered) (calls : List Registration) :
    (r.after calls).Ordered ∧ (r.after calls).options = r.options ∧
    (r.after calls).entries.Perm (r.entries ++ r.accepted calls) ∧
    ∀ id, (r.after calls).entries.lookup id = (r.entries ++ calls).lookup id := by
  induction calls generalizing r with
  | nil =>
    rw [accepted, List.append_nil]
    exact ⟨h, rfl, .refl _, fun id => rfl⟩
  | cons call calls ih =>
    obtain ⟨hordered, hoptions, hperm, hlookup⟩ := h.registered_spec call
    obtain ⟨hordered', hoptions', hperm', hlookup'⟩ := ih hordered
    refine ⟨hordered', hoptions'.trans hoptions, ?_, ?_⟩
    · rw [accepted_cons, ← List.append_assoc]
      exact hperm'.trans (hperm.append_right _)
    · intro id
      rw [List.append_cons, List.lookup_append, ← hlookup, ← List.lookup_append]
      exact hlookup' id

lemma Ordered.accepted_eq_filter (h : r.Ordered) {calls : List Registration}
    (hnodup : (calls.map Prod.fst).Nodup) :
    r.accepted calls = calls.filter (·.1 ∉ r.identifiers) := by
  induction calls generalizing r with
  | nil => rfl
  | cons call calls ih =>
    obtain ⟨id, make⟩ := call
    rw [List.map_cons, List.nodup_cons] at hnodup
    obtain ⟨hnew, hnodup⟩ := hnodup
    obtain ⟨hordered, _, _, hlookup⟩ := h.registered_spec (id, make)
    -- The first call takes an identifier that no later one asks for.
    have hkept : calls.filter (·.1 ∉ (r.registered (id, make)).identifiers) =
        calls.filter (·.1 ∉ r.identifiers) := by
      apply List.filter_congr
      intro call hcall
      have hid : call.1 ≠ id := by
        intro hid
        exact hnew (List.mem_map.mpr ⟨call, hcall, hid⟩)
      rw [decide_eq_decide, mem_identifiers_iff, mem_identifiers_iff, hlookup, List.lookup_append,
        lookup_singleton_ne hid, Option.or_none]
    rw [accepted_cons, ih hordered hnodup, hkept, accepted]
    obtain ⟨hmem, hrefused⟩ | ⟨hmem, _, _, _, haccepted, _, _⟩ := h.enter_spec id make
    · rw [hrefused, accepted, List.nil_append, List.filter_cons_of_neg (by simpa using hmem)]
    · rw [haccepted, List.filter_cons_of_pos (by simpa using hmem)]
      rfl

/-- An ordered registry is given by its options and by which entries it has. -/
lemma Ordered.eq_of_perm {r' : Registry} (h : r.Ordered) (h' : r'.Ordered)
    (hoptions : r.options = r'.options) (hperm : r.entries.Perm r'.entries) : r = r' := by
  have hentries : r.entries = r'.entries :=
    hperm.eq_of_pairwise (fun a b _ _ hab hba => absurd hba hab.asymm) h.pairwise h'.pairwise
  cases r
  cases r'
  cases hoptions
  cases hentries
  rfl

lemma Ordered.after_perm (h : r.Ordered) {calls calls' : List Registration}
    (hperm : calls.Perm calls') (hnodup : (calls.map Prod.fst).Nodup) :
    r.after calls = r.after calls' := by
  obtain ⟨hordered, hoptions, hentries, _⟩ := h.after_spec calls
  obtain ⟨hordered', hoptions', hentries', _⟩ := h.after_spec calls'
  have haccepted : (r.accepted calls).Perm (r.accepted calls') := by
    rw [h.accepted_eq_filter hnodup,
      h.accepted_eq_filter ((hperm.map Prod.fst).nodup_iff.mp hnodup)]
    exact hperm.filter _
  exact hordered.eq_of_perm hordered' (hoptions.trans hoptions'.symm)
    (hentries.trans ((haccepted.append_left _).trans hentries'.symm))

end Runs

lemma ordered_empty (options : BuildOptions) : (empty options).Ordered := .nil

lemma entries_standard (options : BuildOptions) :
    (standard options).entries =
      [("CVP", fun _ => .skeleton .power),
        ("PDIV", fun options => .skeleton (.division options.protection))] := by
  apply List.mergeSort_of_pairwise
  rw [List.pairwise_pair]
  decide

lemma ordered_standard (options : BuildOptions) : (standard options).Ordered := by
  unfold Ordered identifiers
  rw [entries_standard, List.map_cons, List.map_cons, List.map_nil, List.pairwise_pair]
  decide

/-- A registry is an ordered map in which the first registration of an identifier stays. After any
registrations the identifiers are in the order of their bytes; the next registration succeeds
exactly for a new identifier and otherwise changes nothing; the entries are those that were there at
first and those whose registration succeeded; nodes are made by what was registered first; and of
registrations under different identifiers the order does not matter. -/
theorem first_registration_stays {start : Registry} {options : BuildOptions}
    (hstart : start = empty options ∨ start = standard options) (calls : List Registration) :
    let r := start.after calls
    r.options = options ∧ r.identifiers.Pairwise Text.Before ∧
    (∀ id make,
      (id ∈ r.identifiers ∧ r.register id make = .error (.duplicateIdentifier id) ∧
        start.after (calls ++ [(id, make)]) = r) ∨
      (id ∉ r.identifiers ∧ r.register id make = .ok (start.after (calls ++ [(id, make)])) ∧
        (start.after (calls ++ [(id, make)])).entries.Perm ((id, make) :: r.entries))) ∧
    r.entries.Perm (start.entries ++ start.accepted calls) ∧
    (∀ id, r.create id = ((start.entries ++ calls).lookup id).map (fun make => make options) ∧
      (r.contains id ↔ (r.create id).isSome) ∧ r.arityOf id = (r.create id).map Tree.arity ∧
      (id ∈ r.identifiers ↔ id ∈ (start.entries ++ calls).map Prod.fst)) ∧
    ∀ calls', calls.Perm calls' → (calls.map Prod.fst).Nodup → start.after calls' = r := by
  intro r
  have hordered_start : start.Ordered := by
    obtain rfl | rfl := hstart
    · exact ordered_empty options
    · exact ordered_standard options
  have hoptions_start : start.options = options := by
    obtain rfl | rfl := hstart <;> rfl
  obtain ⟨hordered, hoptions, hperm, hlookup⟩ := hordered_start.after_spec calls
  rw [hoptions_start] at hoptions
  refine ⟨hoptions, hordered, ?_, hperm, ?_, ?_⟩
  · intro id make
    have hnext : start.after (calls ++ [(id, make)]) = r.registered (id, make) := by
      rw [after, List.foldl_append]
      rfl
    rw [hnext, registered, register]
    obtain ⟨hmem, hrefused⟩ | ⟨hmem, before, after, hcut, haccepted, _⟩ :=
      hordered.enter_spec id make
    · rw [hrefused]
      exact .inl ⟨hmem, rfl, rfl⟩
    · rw [haccepted]
      refine .inr ⟨hmem, rfl, ?_⟩
      rw [hcut]
      exact List.perm_middle
  · intro id
    have hcreate : r.create id =
        ((start.entries ++ calls).lookup id).map fun make => make options := by
      rw [hordered.create_eq, hlookup, hoptions]
    refine ⟨hcreate, ?_, rfl, ?_⟩
    · rw [hordered.contains_eq, hcreate, hlookup, Option.isSome_map]
    · rw [mem_identifiers_iff, hlookup,
        ← mem_identifiers_iff (r := ⟨options, start.entries ++ calls⟩)]
      rfl
  · intro calls' hcalls hnodup
    exact (hordered_start.after_perm hcalls hnodup).symm

/-- At both ends of the operations and between them: the empty text, a text of another script, and a
division of one's own that comes too late. -/
theorem first_registration_stays_at_ends :
    let own : Constructor := fun options => .ofValue (.number (.float64 options.protection))
    let calls := [("é", own), ("PDIV", own), ("", own), ("D", own)]
    let start := standard ⟨.zero true⟩
    let r := start.after calls
    (start = empty ⟨.zero true⟩ ∨ start = standard ⟨.zero true⟩) ∧
    r.identifiers = ["", "CVP", "D", "PDIV", "é"] ∧
    r.register "PDIV" own = .error (.duplicateIdentifier "PDIV") ∧
    r.create "PDIV" = some (.skeleton (.division (.zero true))) ∧
    calls.Perm calls.reverse ∧ (calls.map Prod.fst).Nodup ∧ start.after calls.reverse = r := by
  intro own calls start r
  have hstart : start = empty ⟨.zero true⟩ ∨ start = standard ⟨.zero true⟩ := .inr rfl
  have hnodup : (calls.map Prod.fst).Nodup := by decide
  have hperm : calls.Perm calls.reverse := (List.reverse_perm calls).symm
  obtain ⟨_, hordered, hregister, _, hread, horder⟩ := first_registration_stays hstart calls
  have hmem : ∀ id, id ∈ r.identifiers ↔ id ∈ ["", "CVP", "D", "PDIV", "é"] := by
    intro id
    rw [(hread id).2.2.2, entries_standard]
    simp only [calls, List.map_append, List.map_cons, List.map_nil, List.mem_append, List.mem_cons,
      List.not_mem_nil]
    tauto
  have hidentifiers : r.identifiers = ["", "CVP", "D", "PDIV", "é"] := by
    have hlist : ["", "CVP", "D", "PDIV", "é"].Pairwise Text.Before := by decide
    have hperm := (List.perm_ext_iff_of_nodup (hordered.imp Text.Before.ne)
      (hlist.imp Text.Before.ne)).mpr hmem
    exact hperm.eq_of_pairwise (fun a b _ _ hab hba => absurd hba hab.asymm) hordered hlist
  have hcreate := (hread "PDIV").1
  refine ⟨hstart, hidentifiers, ?_, ?_, hperm, hnodup, horder calls.reverse hperm hnodup⟩
  · obtain ⟨_, hrefused, _⟩ | ⟨hnew, _⟩ := hregister "PDIV" own
    · exact hrefused
    · exact absurd ((hmem "PDIV").mpr (by decide)) hnew
  · rw [hcreate, entries_standard]
    rfl

end Registry

end NumericTrees
