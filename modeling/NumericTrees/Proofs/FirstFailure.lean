import NumericTrees.Proofs.Contents
import NumericTrees.Proofs.Traversal

/-!
# The first failure among the slots

The slots of a node are evaluated from the left, up to the first one that is empty or holds a child
that fails, and its failure is the failure of all of them. Whatever the children are, each of them
is evaluated once before that point and not at all behind it. Where no slot fails there are as many
results as slots, so that a loop over the indices, which gathers results in a list, always finds the
list to be of the right length in the end.
-/

namespace NumericTrees

universe u

/-- The tuple of the elements of a list, of which there must be `n`. -/
def Tuple.ofList? {α : Type u} : (n : Nat) → List α → Option (Tuple α n)
  | 0, [] => some .nil
  | n + 1, a :: rest => (ofList? n rest).map (.cons a)
  | _, _ => none

lemma Tuple.ofList?_toList {α : Type u} {n : Nat} (t : Tuple α n) :
    ofList? n t.toList = some t := by
  induction t with
  | nil => rfl
  | cons a rest ih => rw [toList, ofList?, ih, Option.map_some]

namespace Slots

variable {α β : Type} {n : Nat}

/-- A slot fails where it is empty, and where its child fails. -/
inductive FailsAt (missing : Nat → EvalError) (evaluate : α → Trace β) (slots : Slots α n) :
    Nat → EvalError → Prop
  | empty {index : Nat} (h : slots.get? index = some none) :
      FailsAt missing evaluate slots index (missing index)
  | child {index : Nat} {child : α} {e : EvalError} (h : slots.get? index = some (some child))
      (he : (evaluate child).outcome = .error e) : FailsAt missing evaluate slots index e

/-- What the child in a slot records. An empty slot records nothing. -/
def recorded (evaluate : α → Trace β) : Option α → List Int
  | some child => (evaluate child).tags
  | none => []

/-- What the children in the first slots record, each of them once and in the order of the slots. -/
def tagsOfFirst (evaluate : α → Trace β) (slots : Slots α n) (count : Nat) : List Int :=
  (slots.toList.take count).flatMap (recorded evaluate)

/-- A slot holds a child with the given result. -/
def Answers (evaluate : α → Trace β) (slot : Option α) (result : β) : Prop :=
  ∃ child, slot = some child ∧ (evaluate child).outcome = .ok result

/-- Evaluates the slots by a loop over their indices. The results are pushed one after another onto
a list, which becomes a tuple in the end; `short` stands in where it is of another length. -/
def evaluateByIndex (node : String) (evaluate : α → Trace β)
    (short : List β → Trace (Tuple β n)) (slots : Slots α n) : Trace (Tuple β n) := do
  let results ← (List.range n).foldlM (fun results index => do
    let result ← slots.evaluateAt node evaluate index
    return results ++ [result]) []
  match Tuple.ofList? n results with
  | some results => return results
  | none => short results

/-! ### Slot by slot -/

section Step

variable {missing : Nat → EvalError} {evaluate : α → Trace β} {slot : Option α} {rest : Slots α n}
  {index : Nat} {e : EvalError}

lemma failsAt_cons_succ :
    FailsAt missing evaluate (.cons slot rest) (index + 1) e ↔
      FailsAt (fun i => missing (i + 1)) evaluate rest index e := by
  constructor
  · rintro (h | ⟨h, he⟩)
    · exact .empty h
    · exact .child h he
  · rintro (h | ⟨h, he⟩)
    · exact .empty h
    · exact .child h he

lemma not_failsAt_cons_of_ok {child : α} {b : β} (h : (evaluate child).outcome = .ok b) :
    ¬ FailsAt missing evaluate (.cons (some child) rest) 0 e := by
  rintro (h' | ⟨h', he⟩)
  · cases h'
  · cases h'
    rw [h] at he
    cases he

lemma lt_of_failsAt {slots : Slots α n} (h : FailsAt missing evaluate slots index e) :
    index < n := by
  have hsome : ∃ slot, slots.get? index = some slot := by
    cases h with
    | empty h => exact ⟨_, h⟩
    | child h _ => exact ⟨_, h⟩
  obtain ⟨slot, hslot⟩ := hsome
  rw [Tuple.get?_eq_getElem?, List.getElem?_eq_some_iff] at hslot
  rw [← Tuple.length_toList slots]
  exact hslot.1

end Step

/-- Slots whose indices start later are visited alike, with other failures for empty slots. -/
lemma traverse_succ {m : Type → Type} [Monad m] (missing : Nat → m β) (visit : α → m β)
    (slots : Slots α n) (index : Nat) :
    slots.traverse missing visit (index + 1) =
      slots.traverse (fun i => missing (i + 1)) visit index := by
  induction slots generalizing index with
  | nil => rfl
  | cons slot rest ih => simp only [traverse, ih]

section Visit

variable {missing : Nat → EvalError} {evaluate : α → Trace β} {slots : Slots α n}

lemma traverse_cons_of_error {child : α} {tags : List Int} {e : EvalError} (rest : Slots α n)
    (h : evaluate child = ⟨tags, .error e⟩) :
    traverse (fun i => .fail (missing i)) evaluate 0 (.cons (some child) rest) =
      ⟨tags, .error e⟩ := by
  change (evaluate child).andThen _ = _
  rw [h]
  rfl

lemma traverse_cons_of_ok {child : α} {tags : List Int} {b : β} (rest : Slots α n)
    (h : evaluate child = ⟨tags, .ok b⟩) :
    traverse (fun i => .fail (missing i)) evaluate 0 (.cons (some child) rest) =
      let tail := rest.traverse (fun i => .fail (missing (i + 1))) evaluate 0
      ⟨tags ++ tail.tags, tail.outcome.map (Tuple.cons b)⟩ := by
  change (evaluate child).andThen (fun head =>
    (rest.traverse _ evaluate 1).andThen fun tail => pure (Tuple.cons head tail)) = _
  rw [h, traverse_succ, Trace.andThen]
  dsimp only
  cases hrest : (rest.traverse (fun i => .fail (missing (i + 1))) evaluate 0).outcome with
  | error e => simp only [Trace.andThen, hrest, Except.map]
  | ok tail => simp only [Trace.andThen, hrest, Except.map, pure, List.append_nil]

@[simp] lemma tagsOfFirst_zero (slots : Slots α n) : slots.tagsOfFirst evaluate 0 = [] := rfl

@[simp] lemma tagsOfFirst_cons (slot : Option α) (rest : Slots α n) (count : Nat) :
    tagsOfFirst evaluate (.cons slot rest) (count + 1) =
      recorded evaluate slot ++ rest.tagsOfFirst evaluate count := rfl

/-- Visiting slots ends at the first failure, or in results of all of them. The induction is on the
slots: a failure of the others is the first one only where the slot before them does not fail. -/
lemma traverse_cases (missing : Nat → EvalError) (evaluate : α → Trace β) (slots : Slots α n) :
    (∃ index e, slots.FailsAt missing evaluate index e ∧
      (∀ earlier < index, ∀ e', ¬ slots.FailsAt missing evaluate earlier e') ∧
      slots.traverse (fun i => .fail (missing i)) evaluate 0 =
        ⟨slots.tagsOfFirst evaluate (index + 1), .error e⟩) ∨
    ∃ results, List.Forall₂ (Answers evaluate) slots.toList results.toList ∧
      slots.traverse (fun i => .fail (missing i)) evaluate 0 =
        ⟨slots.tagsOfFirst evaluate n, .ok results⟩ := by
  induction slots generalizing missing with
  | nil => exact .inr ⟨.nil, .nil, rfl⟩
  | cons slot rest ih =>
    cases slot with
    | none => exact .inl ⟨0, _, .empty rfl, fun _ h => absurd h (Nat.not_lt_zero _), rfl⟩
    | some child =>
      obtain ⟨⟨tags, outcome⟩, hchild⟩ : ∃ trace, evaluate child = trace := ⟨_, rfl⟩
      have htags : recorded evaluate (some child) = tags := congrArg Trace.tags hchild
      have houtcome : (evaluate child).outcome = outcome := congrArg Trace.outcome hchild
      cases outcome with
      | error e =>
        refine .inl ⟨0, e, .child rfl houtcome, fun _ h => absurd h (Nat.not_lt_zero _), ?_⟩
        rw [traverse_cons_of_error rest hchild, tagsOfFirst_cons, htags, tagsOfFirst_zero,
          List.append_nil]
      | ok b =>
        rw [traverse_cons_of_ok rest hchild]
        obtain ⟨index, e, hfails, hnone, hrest⟩ | ⟨results, hanswers, hrest⟩ :=
          ih fun i => missing (i + 1)
        · refine .inl ⟨index + 1, e, failsAt_cons_succ.mpr hfails, ?_, ?_⟩
          · intro earlier hlt e'
            cases earlier with
            | zero => exact not_failsAt_cons_of_ok houtcome
            | succ earlier =>
              rw [failsAt_cons_succ]
              exact hnone earlier (Nat.lt_of_succ_lt_succ hlt) e'
          · rw [hrest, tagsOfFirst_cons, htags]
            rfl
        · refine .inr ⟨.cons b results, .cons ⟨child, rfl, houtcome⟩ hanswers, ?_⟩
          rw [hrest, tagsOfFirst_cons, htags]
          rfl

lemma not_failsAt_of_answers {results : List β}
    (h : List.Forall₂ (Answers evaluate) slots.toList results) (index : Nat) (e : EvalError) :
    ¬ slots.FailsAt missing evaluate index e := by
  have hanswers {slot : Option α} (hslot : slots.get? index = some slot) :
      ∃ b, Answers evaluate slot b := by
    rw [Tuple.get?_eq_getElem?] at hslot
    obtain ⟨b, -, hb⟩ := forall₂_mem_left h (List.mem_of_getElem? hslot)
    exact ⟨b, hb⟩
  rintro (hslot | ⟨hslot, he⟩)
  · obtain ⟨b, child, hchild, -⟩ := hanswers hslot
    cases hchild
  · obtain ⟨b, child, hchild, houtcome⟩ := hanswers hslot
    cases hchild
    rw [he] at houtcome
    cases houtcome

lemma isComplete_of_answers {results : List β}
    (h : List.Forall₂ (Answers evaluate) slots.toList results) : slots.isComplete = true := by
  rw [isComplete, List.all_eq_true]
  intro slot hslot
  obtain ⟨b, -, child, rfl, -⟩ := forall₂_mem_left h hslot
  rfl

end Visit

/-! ### Index by index -/

/-- A loop over the indices answers what visiting the slots answers, behind the results that it has
gathered before. -/
lemma foldlM_eq_traverse {m : Type → Type} [Monad m] [LawfulMonad m] (missing : Nat → m β)
    (visit : α → m β) (answer : Nat → m β) (slots : Slots α n) (start : Nat) (results : List β)
    (h : ∀ i < n, answer (start + i) = (slots.child? i).elim (missing (start + i)) visit) :
    (List.range' start n).foldlM (fun results index => do
        let result ← answer index
        return results ++ [result]) results =
      (fun tail => results ++ tail.toList) <$> slots.traverse missing visit start := by
  induction slots generalizing start results with
  | nil => simp [traverse, Tuple.toList]
  | cons slot rest ih =>
    have hhead : answer start = slot.elim (missing start) visit := h 0 (Nat.succ_pos _)
    have hslots : traverse missing visit start (.cons slot rest) =
        answer start >>= fun head =>
          traverse missing visit (start + 1) rest >>= fun tail => pure (.cons head tail) := by
      rw [hhead]
      cases slot <;> rfl
    have htail (results : List β) := ih (start + 1) results fun i hi => by
      have hi' := h (i + 1) (Nat.succ_lt_succ hi)
      rwa [show start + (i + 1) = start + 1 + i by omega] at hi'
    rw [List.range'_succ, List.foldlM_cons, hslots]
    simp only [bind_assoc, pure_bind, htail, Tuple.toList, map_eq_pure_bind, List.append_assoc,
      List.cons_append, List.nil_append]

/-- The list that the loop has gathered in the end is never of another length than the slots. -/
lemma evaluateByIndex_eq (node : String) (evaluate : α → Trace β)
    (short : List β → Trace (Tuple β n)) (slots : Slots α n) :
    slots.evaluateByIndex node evaluate short = slots.evaluateAll node evaluate := by
  have hloop := foldlM_eq_traverse (fun index => .fail (.missingChild node index)) evaluate
    (slots.evaluateAt node evaluate) slots 0 [] fun i _ => by
      rw [Nat.zero_add, evaluateAt]
      cases slots.child? i <;> rfl
  rw [evaluateByIndex, List.range_eq_range', hloop, evaluateAll]
  simp only [List.nil_append, bind_map_left, Tuple.ofList?_toList, bind_pure]

/-- The slots of a node are evaluated from the left, up to the first failure. If some slot is empty
or holds a child that fails, then the failure of the first such slot is the answer, and the children
up to there have been evaluated, each of them once and in their order, and no others. Otherwise the
answers of all children are the answer. So an empty slot that is reported, and not by a child, is an
empty slot of the node; the loop over the indices never comes to the answer for a list of another
length, whatever that is; and no slot is empty where there is an answer. -/
theorem evaluateAll_first_failure (node : String) (evaluate : α → Trace β) (slots : Slots α n) :
    let fails := slots.FailsAt (.missingChild node) evaluate
    let trace := slots.evaluateAll node evaluate
    ((∃ index e, fails index e) →
      ∃ index < n, ∃ e, fails index e ∧ (∀ earlier < index, ∀ e', ¬ fails earlier e') ∧
        trace = ⟨slots.tagsOfFirst evaluate (index + 1), .error e⟩) ∧
    ((∀ index e, ¬ fails index e) →
      ∃ results, trace = ⟨slots.tagsOfFirst evaluate n, .ok results⟩ ∧
        List.Forall₂ (Answers evaluate) slots.toList results.toList) ∧
    (∀ index, trace.outcome = .error (.missingChild node index) →
      (∀ child ∈ slots.children, (evaluate child).outcome ≠ .error (.missingChild node index)) →
      index < n ∧ slots.get? index = some none) ∧
    (∀ short, slots.evaluateByIndex node evaluate short = trace) ∧
    ∀ results, trace.outcome = .ok results → slots.isComplete = true := by
  intro fails trace
  have hcases := slots.traverse_cases (.missingChild node) evaluate
  refine ⟨?_, ?_, ?_, fun short => slots.evaluateByIndex_eq node evaluate short, ?_⟩
  · rintro ⟨index, e, h⟩
    obtain ⟨first, e', hfails, hnone, htrace⟩ | ⟨results, hanswers, -⟩ := hcases
    · exact ⟨first, lt_of_failsAt hfails, e', hfails, hnone, htrace⟩
    · exact absurd h (not_failsAt_of_answers hanswers index e)
  · intro hnone
    obtain ⟨first, e, hfails, -⟩ | ⟨results, hanswers, htrace⟩ := hcases
    · exact absurd hfails (hnone first e)
    · exact ⟨results, htrace, hanswers⟩
  · intro index houtcome hchildren
    obtain ⟨first, e, hfails, -, htrace⟩ | ⟨results, -, htrace⟩ := hcases
    · have he : e = .missingChild node index :=
        Except.error.inj ((congrArg Trace.outcome htrace).symm.trans houtcome)
      have hlt := lt_of_failsAt hfails
      cases hfails with
      | empty h =>
        cases he
        exact ⟨hlt, h⟩
      | child h hchild =>
        rw [he] at hchild
        exact absurd hchild (hchildren _ (mem_children_of_child? (by rw [child?, h]; rfl)))
    · cases (congrArg Trace.outcome htrace).symm.trans houtcome
  · intro results houtcome
    obtain ⟨first, e, -, -, htrace⟩ | ⟨_, hanswers, -⟩ := hcases
    · cases (congrArg Trace.outcome htrace).symm.trans houtcome
    · exact isComplete_of_answers hanswers

/-- A failing child in front of an empty slot, an empty slot in front of a failing child, and slots
without a failure. -/
theorem evaluateAll_first_failure_unbound :
    let leaf : Trace Nat := ⟨[1], .ok 10⟩
    let unbound : Trace Nat := ⟨[2], .error (.unboundVariable "x")⟩
    let failing : Slots (Trace Nat) 3 := .cons (some leaf) (.cons (some unbound) (.cons none .nil))
    let lacking : Slots (Trace Nat) 3 := .cons (some leaf) (.cons none (.cons (some unbound) .nil))
    let full : Slots (Trace Nat) 2 := .cons (some leaf) (.cons (some leaf) .nil)
    failing.FailsAt (.missingChild "N") id 1 (.unboundVariable "x") ∧
    (∃ index < 3, ∃ e, failing.FailsAt (.missingChild "N") id index e ∧
      (∀ earlier < index, ∀ e', ¬ failing.FailsAt (.missingChild "N") id earlier e') ∧
      failing.evaluateAll "N" id = ⟨failing.tagsOfFirst id (index + 1), .error e⟩) ∧
    failing.evaluateAll "N" id = ⟨[1, 2], .error (.unboundVariable "x")⟩ ∧
    (lacking.evaluateAll "N" id).outcome = .error (.missingChild "N" 1) ∧
    (∀ child ∈ lacking.children, (id child).outcome ≠ .error (.missingChild "N" 1)) ∧
    1 < 3 ∧ lacking.get? 1 = some none ∧
    (∀ index e, ¬ full.FailsAt (.missingChild "N") id index e) ∧
    (∃ results, full.evaluateAll "N" id = ⟨[1, 1], .ok results⟩ ∧
      List.Forall₂ (Answers id) full.toList results.toList) ∧
    (full.evaluateAll "N" id).outcome = .ok (.cons 10 (.cons 10 .nil)) ∧
    full.isComplete = true := by
  intro leaf unbound failing lacking full
  have hfails : failing.FailsAt (.missingChild "N") id 1 (.unboundVariable "x") := .child rfl rfl
  have hchildren : ∀ child ∈ lacking.children,
      (id child).outcome ≠ .error (.missingChild "N" 1) := by
    intro child hchild
    simp only [lacking, children_cons_some, children_cons_none, children_nil, List.mem_cons,
      List.not_mem_nil, or_false] at hchild
    obtain rfl | rfl := hchild
    · simp [leaf]
    · simp [unbound]
  have hleaf : Answers id (some leaf) 10 := ⟨leaf, rfl, rfl⟩
  have hnone (index : Nat) (e : EvalError) : ¬ full.FailsAt (.missingChild "N") id index e :=
    not_failsAt_of_answers (.cons hleaf (.cons hleaf .nil)) index e
  obtain ⟨hfirst, -, -, -, -⟩ := evaluateAll_first_failure "N" id failing
  obtain ⟨-, -, hlacking, -, -⟩ := evaluateAll_first_failure "N" id lacking
  obtain ⟨-, hanswers, -, -, hcomplete⟩ := evaluateAll_first_failure "N" id full
  obtain ⟨hlt, hempty⟩ := hlacking 1 rfl hchildren
  exact ⟨hfails, hfirst ⟨1, _, hfails⟩, rfl, rfl, hchildren, hlt, hempty, hnone, hanswers hnone,
    rfl, hcomplete _ rfl⟩

end Slots

end NumericTrees
