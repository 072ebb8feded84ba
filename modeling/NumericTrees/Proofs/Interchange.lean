import NumericTrees.Proofs.Editing
import NumericTrees.Proofs.NaNs

/-!
# Interchangeable subtrees

A node learns of a child only how its evaluation ends, so subtrees that end alike can take each
other's place in every tree. Two NaNs of one kind count as alike, and all but a power that its other
operands decide take them so.
-/

namespace NumericTrees

/-! ### One operand of an operation -/

lemma Tuple.get?_map {α β : Type} {n : Nat} (f : α → β) (t : Tuple α n) (i : Nat) :
    (t.map f).get? i = (t.get? i).map f := by
  rw [get?_eq_getElem?, get?_eq_getElem?, toList_map, List.getElem?_map]

/-- The value, all NaNs of a kind counting as one. -/
def Value.mergeNaNs : Value → Value
  | number n => number n.mergeNaNs
  | bool b => bool b
  | str s => str s

/-- Two evaluations end alike, in the same failure or in the same value apart from NaNs. -/
def SameOutcome (outcome outcome' : Except EvalError Value) : Prop :=
  outcome.map Value.mergeNaNs = outcome'.map Value.mergeNaNs

/-- Whether an evaluation ends in a signaling NaN of 64 bits. -/
def signals : Except EvalError Value → Bool
  | .ok (.number n) => n.isSignaling
  | _ => false

lemma SameOutcome.eq_or_numbers {outcome outcome' : Except EvalError Value}
    (h : SameOutcome outcome outcome') :
    outcome = outcome' ∨ ∃ n n', outcome = .ok (.number n) ∧ outcome' = .ok (.number n') ∧
      n.mergeNaNs = n'.mergeNaNs := by
  cases outcome with
  | error e =>
    cases outcome' with
    | error e' => exact .inl (by cases h; rfl)
    | ok v' => cases h
  | ok v =>
    cases outcome' with
    | error e' => cases h
    | ok v' =>
      have hmerged : v.mergeNaNs = v'.mergeNaNs := Except.ok.inj h
      cases v <;> cases v' <;> simp_all [Value.mergeNaNs]

lemma sameOutcome_of_isNaN {x y : Double} (hx : x.isNaN = true) (hy : y.isNaN = true) :
    SameOutcome (.ok (.number (.float64 x))) (.ok (.number (.float64 y))) := by
  have hmerged : x.mergeNaNs = y.mergeNaNs := Binary.mergeNaNs_eq_iff.mpr (.inr ⟨hx, hy⟩)
  simp [SameOutcome, Except.map, Value.mergeNaNs, Number.mergeNaNs, hmerged]

/-- What the other operands are makes a power one, whatever number is put in at an index: a zero
exponent beside any base, and a base that is one beside any exponent. -/
def DecidedBeside (operand : Nat → Number → Prop) (index : Nat) : Prop :=
  (index = 1 ∧ ∃ n, operand 2 n ∧ n.isZero = true) ∨
  (index = 2 ∧ ∃ n, operand 1 n ∧ n.toDouble = .one)

lemma DecidedBeside.mono {operand operand' : Nat → Number → Prop} {index : Nat}
    (h : DecidedBeside operand index) (hmono : ∀ j ≠ index, ∀ n, operand j n → operand' j n) :
    DecidedBeside operand' index := by
  obtain ⟨rfl, n, hn, hzero⟩ | ⟨rfl, n, hn, hone⟩ := h
  · exact .inl ⟨rfl, n, hmono 2 (by decide) n hn, hzero⟩
  · exact .inr ⟨rfl, n, hmono 1 (by decide) n hn, hone⟩

namespace Operation

variable {op : Operation} {i : Nat} {n n' : Number}

lemma compute_set {operands : Tuple Number op.arity} (hn : operands.get? i = some n)
    (hsame : n.mergeNaNs = n'.mergeNaNs)
    (hsignals : op = .power → DecidedBeside (fun j m => operands.get? j = some m) i →
      n.isSignaling = n'.isSignaling) :
    op.compute (operands.set i n') = op.compute operands := by
  match op, operands, i, hn, hsignals with
  | division protection, .cons a (.cons b .nil), 0, hn, _ =>
    cases hn
    change Number.divide protection n' b = Number.divide protection n b
    rw [← Number.divide_mergeNaNs, ← hsame, Number.divide_mergeNaNs]
  | division protection, .cons a (.cons b .nil), 1, hn, _ =>
    cases hn
    change Number.divide protection a n' = Number.divide protection a n
    rw [← Number.divide_mergeNaNs, ← hsame, Number.divide_mergeNaNs]
  | division protection, .cons a (.cons b .nil), j + 2, hn, _ => cases hn
  | power, .cons c (.cons x (.cons y .nil)), 0, hn, _ =>
    cases hn
    have hmul (z : Double) : n'.toDouble.mul z = n.toDouble.mul z := by
      rw [← Binary.mul_mergeNaNs, ← Number.toDouble_congr hsame, Binary.mul_mergeNaNs]
    exact congrArg Number.float64 (hmul _)
  | power, .cons c (.cons x (.cons y .nil)), 1, hn, hsignals =>
    cases hn
    have hpow : n.toDouble.pow y.toDouble = n'.toDouble.pow y.toDouble := by
      apply Binary.pow_base_congr (Number.toDouble_congr hsame)
      intro hzero
      rw [Number.isSignaling_toDouble, Number.isSignaling_toDouble]
      exact hsignals rfl (.inl ⟨rfl, y, rfl, by rw [← Number.isZero_toDouble, hzero]⟩)
    exact congrArg (fun z => Number.float64 (c.toDouble.mul z)) hpow.symm
  | power, .cons c (.cons x (.cons y .nil)), 2, hn, hsignals =>
    cases hn
    have hpow : x.toDouble.pow n.toDouble = x.toDouble.pow n'.toDouble := by
      apply Binary.pow_exponent_congr (Number.toDouble_congr hsame)
      intro hone
      rw [Number.isSignaling_toDouble, Number.isSignaling_toDouble]
      exact hsignals rfl (.inr ⟨rfl, x, rfl, hone⟩)
    exact congrArg (fun z => Number.float64 (c.toDouble.mul z)) hpow.symm
  | power, .cons c (.cons x (.cons y .nil)), j + 3, hn, _ => cases hn

lemma apply_set {values : Tuple Value op.arity} (hn : values.get? i = some (.number n))
    (hsame : n.mergeNaNs = n'.mergeNaNs)
    (hsignals : op = .power → DecidedBeside (fun j m => values.get? j = some (.number m)) i →
      n.isSignaling = n'.isSignaling) :
    op.apply (values.set i (.number n')) = op.apply values := by
  have htypes : (values.set i (.number n')).toList.map Value.type =
      values.toList.map Value.type := by
    have hkind : n'.kind = n.kind := by
      rw [← Number.kind_mergeNaNs, ← hsame, Number.kind_mergeNaNs]
    have htype : Value.type (.number n') = Value.type (.number n) :=
      congrArg ValueType.numeric hkind
    rw [← Tuple.toList_map, Tuple.map_set, htype, ← Tuple.map_set, Tuple.set_of_get? hn,
      Tuple.toList_map]
  cases hnumeric : ValueType.allNumeric (values.toList.map Value.type) with
  | false =>
    rw [apply_of_not_allNumeric op hnumeric, ← htypes,
      apply_of_not_allNumeric op (htypes ▸ hnumeric)]
  | true =>
    obtain ⟨operands, rfl⟩ := Tuple.exists_numbers hnumeric
    have hoperand (j : Nat) (m : Number) : (operands.map Value.number).get? j = some (.number m) ↔
        operands.get? j = some m := by
      rw [Tuple.get?_map, Option.map_eq_some_iff]
      simp
    rw [← Tuple.map_set, apply_number, apply_number]
    rw [compute_set ((hoperand i n).mp hn) hsame]
    intro hop hdecided
    exact hsignals hop (hdecided.mono fun j _ m hm => (hoperand j m).mpr hm)

end Operation

/-! ### One slot of a node -/

namespace Slots

variable {α β ε : Type} {n : Nat} {missing : Nat → ε} (answer : α → Except ε β)
  {slots : Slots α n} {child child' : α} {i : Nat}

lemma visit_set_of_eq (hslot : slots.get? i = some (some child))
    (h : answer child = answer child') (index : Nat) :
    visit missing answer index (slots.set i (some child')) = visit missing answer index slots := by
  have hanswers : (slots.set i (some child')).map (Option.map answer) =
      slots.map (Option.map answer) := by
    rw [Tuple.map_set, Option.map_some, ← h, ← Option.map_some, ← Tuple.map_set,
      Tuple.set_of_get? hslot]
  have hvisit (row : Slots α n) : visit missing answer index row =
      visit missing id index (row.map (Option.map answer)) :=
    (traverse_map _ id answer row index).symm
  rw [hvisit, hanswers, ← hvisit]

lemma visit_set {b b' : β} (hslot : slots.get? i = some (some child)) (h : answer child = .ok b)
    (h' : answer child' = .ok b') (index : Nat) :
    visit missing answer index (slots.set i (some child')) =
      (visit missing answer index slots).map (·.set i b') := by
  induction slots generalizing i index with
  | nil => cases hslot
  | cons slot rest ih =>
    cases i with
    | zero =>
      cases hslot
      rw [Tuple.set, visit_cons_ok index rest h', visit_cons_ok index rest h]
      cases visit missing answer (index + 1) rest <;> rfl
    | succ i =>
      rw [Tuple.set]
      cases slot with
      | none => rfl
      | some first =>
        cases hfirst : answer first with
        | error e =>
          rw [visit_cons_error _ _ hfirst, visit_cons_error _ _ hfirst]
          rfl
        | ok a =>
          rw [visit_cons_ok _ _ hfirst, visit_cons_ok _ _ hfirst, ih hslot]
          cases visit missing answer (index + 1) rest <;> rfl

variable {answer} in
lemma get?_visit_eq_some_iff {index j : Nat} {results : Tuple β n} {b : β}
    (h : visit missing answer index slots = .ok results) :
    results.get? j = some b ↔ ∃ child, slots.child? j = some child ∧ answer child = .ok b := by
  have hslots := visit_eq_ok_iff.mp h
  rw [child?, Tuple.get?_eq_getElem?, Tuple.get?_eq_getElem?]
  generalize slots.toList = row at hslots
  generalize results.toList = answers at hslots
  induction hslots generalizing j with
  | nil => simp
  | @cons slot a row answers hslot _ ih =>
    cases j with
    | zero =>
      obtain ⟨child, rfl, hchild⟩ := hslot
      simp [hchild]
    | succ j => exact ih

end Slots

namespace Tree

variable {store : Store} {op : Operation} {slots : Slots Tree op.arity} {i : Nat} {s s' : Tree}

lemma outcome_set_of_eq (hslot : slots.get? i = some (some s))
    (h : (s.evaluate store).outcome = (s'.evaluate store).outcome) :
    ((function op (slots.set i (some s'))).evaluate store).outcome =
      ((function op slots).evaluate store).outcome := by
  rw [outcome_evaluate_function, outcome_evaluate_function,
    Slots.visit_set_of_eq (fun child => (child.evaluate store).outcome) hslot h]

lemma outcome_set (hslot : slots.get? i = some (some s))
    (hsame : SameOutcome (s.evaluate store).outcome (s'.evaluate store).outcome)
    (hsignals : op = .power →
      DecidedBeside (fun j => SlotYields store (Slots.child? slots j)) i →
      signals (s.evaluate store).outcome = signals (s'.evaluate store).outcome) :
    ((function op (slots.set i (some s'))).evaluate store).outcome =
      ((function op slots).evaluate store).outcome := by
  -- Only numbers can be alike without being the same, so all the rest is a question of one outcome.
  obtain heq | ⟨n, n', hn, hn', hmerged⟩ := hsame.eq_or_numbers
  · exact outcome_set_of_eq hslot heq
  · rw [hn, hn'] at hsignals
    rw [outcome_evaluate_function, outcome_evaluate_function,
      Slots.visit_set (fun child => (child.evaluate store).outcome) hslot hn hn']
    cases hvisit : Slots.visit (.missingChild op.identifier)
      (fun child => (child.evaluate store).outcome) 0 slots with
    | error e => rfl
    | ok values =>
      have hvalue (j : Nat) (m : Number) :
          values.get? j = some (.number m) ↔ SlotYields store (Slots.child? slots j) m :=
        Slots.get?_visit_eq_some_iff hvisit
      apply op.apply_set ((hvalue i n).mpr ⟨s, Option.join_eq_some_iff.mpr hslot, hn⟩) hmerged
      intro hop hdecided
      exact hsignals hop (hdecided.mono fun j _ m hm => (hvalue j m).mp hm)

/-! ### A slot anywhere in a tree -/

/-- The slot belongs to a power that its other operands decide. -/
def PowerDecided (store : Store) (t : Tree) (path : List Nat) (index : Nat) : Prop :=
  t.label? path = some (.inr .power) ∧
    DecidedBeside (fun j => SlotYields store (t.descendant? (path ++ [j]))) index

variable {t t' : Tree} {path : List Nat} {index : Nat}

lemma PowerDecided.function {child : Tree} {step : Nat}
    (h : PowerDecided store child path index) (hchild : slots.get? step = some (some child)) :
    PowerDecided store (function op slots) (step :: path) index := by
  have hchild' : (Tree.function op slots).child? step = some child :=
    Option.join_eq_some_iff.mpr hchild
  constructor
  · rw [label?_cons, hchild', Option.bind_some, h.1]
  · apply h.2.mono
    intro j _ n hn
    rw [List.cons_append, descendant?_step, hchild', Option.bind_some]
    exact hn

lemma PowerDecided.of_agreeOutside (h : PowerDecided store t path index)
    (houtside : AgreeOutside (path ++ [index]) t t') : PowerDecided store t' path index := by
  constructor
  · rw [← houtside path, h.1]
    intro hlies
    have hle := hlies.length_le
    rw [List.length_append, List.length_singleton] at hle
    omega
  · apply h.2.mono
    intro j hj n hn
    rw [← descendant?_eq_of_label?]
    · exact hn
    · intro rest
      apply houtside
      rw [List.append_assoc, List.prefix_append_right_inj]
      intro hlies
      exact hj (List.cons_prefix_cons.mp hlies).1.symm

lemma Regrafts.outcome_eq (h : Regrafts index (some s) (some s') path t t')
    (hsame : SameOutcome (s.evaluate store).outcome (s'.evaluate store).outcome)
    (hsignals : PowerDecided store t path index →
      signals (s.evaluate store).outcome = signals (s'.evaluate store).outcome) :
    (t'.evaluate store).outcome = (t.evaluate store).outcome := by
  -- The node of the slot ends in the very same way with both, and nothing above it sees more.
  induction h with
  | @atRoot op slots hslot =>
    apply outcome_set hslot hsame
    rintro rfl hdecided
    apply hsignals
    refine ⟨rfl, hdecided.mono ?_⟩
    intro j _ n hn
    rw [List.nil_append, descendant?_singleton]
    exact hn
  | inChild op hchild _ ih =>
    have hbelow := ih fun hdecided => hsignals (hdecided.function hchild)
    exact outcome_set_of_eq hchild hbelow.symm

lemma HasSlot.exists_graft (h : t.HasSlot path index) :
    ∃ graft : Tree → Tree,
      (∀ s, t.setChildAt path index s =
        some (.ok ⟨graft s, t.descendant? (path ++ [index])⟩)) ∧
      (∀ s, AgreeOutside (path ++ [index]) (graft s) t) ∧
      ∀ s s', Regrafts index (some s) (some s') path (graft s) (graft s') := by
  choose graft hgraft using fun s => h.exists_regrafts (some s)
  refine ⟨graft, fun s => (hgraft s).setChildAt, fun s => (hgraft s).agreeOutside, ?_⟩
  intro s s'
  obtain ⟨t', hagain, hboth⟩ := (hgraft s).again (some s')
  cases hboth.editAt.symm.trans (hgraft s').editAt
  exact hagain

/-- In every slot of every node of a tree, subtrees that end alike are interchangeable: the tree
ends alike with either of them, and has the same type or type error with subtrees of one type or
type error. A literal is interchangeable with every subtree of its value. NaNs count as one, except
in the base of a power whose exponent is zero and in the exponent of a power whose base is one:
there both subtrees or neither must end in a signaling NaN of 64 bits. -/
theorem subtrees_interchange (h : t.HasSlot path index) :
    ∃ graft : Tree → Tree,
      (∀ s, t.setChildAt path index s =
        some (.ok ⟨graft s, t.descendant? (path ++ [index])⟩)) ∧
      (∀ store s s', SameOutcome (s.evaluate store).outcome (s'.evaluate store).outcome →
        (PowerDecided store t path index →
          signals (s.evaluate store).outcome = signals (s'.evaluate store).outcome) →
        SameOutcome ((graft s).evaluate store).outcome ((graft s').evaluate store).outcome) ∧
      (∀ store s value, (s.evaluate store).outcome = .ok value →
        ((graft (ofValue value)).evaluate store).outcome = ((graft s).evaluate store).outcome) ∧
      ∀ s s', s.infer = s'.infer → (graft s).infer = (graft s').infer := by
  obtain ⟨graft, hset, houtside, hregrafts⟩ := h.exists_graft
  have hequal {store : Store} {s s' : Tree}
      (hsame : SameOutcome (s.evaluate store).outcome (s'.evaluate store).outcome)
      (hsignals : PowerDecided store t path index →
        signals (s.evaluate store).outcome = signals (s'.evaluate store).outcome) :
      ((graft s).evaluate store).outcome = ((graft s').evaluate store).outcome :=
    ((hregrafts s s').outcome_eq hsame fun h => hsignals (h.of_agreeOutside (houtside s))).symm
  refine ⟨graft, hset, ?_, ?_, fun s s' => (hregrafts s s').fold_eq⟩
  · intro store s s' hsame hsignals
    exact congrArg (Except.map Value.mergeNaNs) (hequal hsame hsignals)
  · intro store s value hvalue
    have hliteral : ((ofValue value).evaluate store).outcome = (s.evaluate store).outcome := by
      rw [hvalue, outcome_ofValue]
    exact hequal (congrArg (Except.map Value.mergeNaNs) hliteral)
      fun _ => congrArg signals hliteral

/-- Below a division, quiet NaNs of both signs in the base of a power whose exponent is zero. -/
theorem subtrees_interchange_quiet :
    let literal (x : Double) : Tree := ofValue (.number (.float64 x))
    let positive := literal (.ofBits 0x7ff8000000000000)
    let negative := literal (.ofBits 0xfff8000000000001)
    let p := power (some (literal .one)) none (some (literal (.zero false)))
    let t := division .nan (some p) (some (literal .one))
    t.HasSlot [0] 1 ∧ ∃ t₁ t₂, t.setChildAt [0] 1 positive = some (.ok ⟨t₁, none⟩) ∧
      t.setChildAt [0] 1 negative = some (.ok ⟨t₂, none⟩) ∧
      SameOutcome (t₁.evaluate .empty).outcome (t₂.evaluate .empty).outcome := by
  intro literal positive negative p t
  have hslot : t.HasSlot [0] 1 := ⟨.power, rfl, by decide⟩
  obtain ⟨graft, hset, hsame, -⟩ := subtrees_interchange hslot
  refine ⟨hslot, graft positive, graft negative, hset positive, hset negative, ?_⟩
  apply hsame
  · rw [outcome_ofValue, outcome_ofValue]
    exact sameOutcome_of_isNaN (by decide) (by decide)
  · intro _
    rw [outcome_ofValue, outcome_ofValue]
    decide +kernel

/-- Two NaNs beside a zero exponent: the power of the quiet one is one, and that of the signaling
one is NaN. -/
theorem signaling_not_interchangeable :
    let literal (x : Double) : Tree := ofValue (.number (.float64 x))
    let quiet := literal (.ofBits 0x7ff8000000000000)
    let signaling := literal (.ofBits 0x7ff0000000000001)
    let t := power (some (literal .one)) none (some (literal (.zero false)))
    ∃ t₁ t₂, t.setChildAt [] 1 quiet = some (.ok ⟨t₁, none⟩) ∧
      t.setChildAt [] 1 signaling = some (.ok ⟨t₂, none⟩) ∧
      SameOutcome (quiet.evaluate .empty).outcome (signaling.evaluate .empty).outcome ∧
      ¬ SameOutcome (t₁.evaluate .empty).outcome (t₂.evaluate .empty).outcome := by
  intro literal quiet signaling t
  have hliteral (x : Double) :
      ((literal x).evaluate .empty).outcome = .ok (.number (.float64 x)) :=
    outcome_ofValue .empty _
  have hpower (x : Double) :
      ((power (some (literal .one)) (some (literal x)) (some (literal (.zero false)))).evaluate
        .empty).outcome = .ok (.number (.float64 (Number.coefficientPower .one x (.zero false)))) :=
    @outcome_of_numbers .empty .power _
      (.cons (.float64 .one) (.cons (.float64 x) (.cons (.float64 (.zero false)) .nil)))
      (.cons ⟨_, rfl, hliteral _⟩ (.cons ⟨_, rfl, hliteral _⟩ (.cons ⟨_, rfl, hliteral _⟩ .nil)))
  refine ⟨power (some (literal .one)) (some quiet) (some (literal (.zero false))),
    power (some (literal .one)) (some signaling) (some (literal (.zero false))), rfl, rfl, ?_, ?_⟩
  · rw [hliteral, hliteral]
    exact sameOutcome_of_isNaN (by decide) (by decide)
  · rw [hpower, hpower]
    intro hsame
    have hmerged := Number.float64.inj (Value.number.inj (Except.ok.inj hsame))
    revert hmerged
    decide +kernel

end Tree

end NumericTrees
