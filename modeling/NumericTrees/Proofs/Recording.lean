import NumericTrees.Proofs.DepthLimit
import NumericTrees.Proofs.Walk

/-!
# What an evaluation records

An evaluation comes to the points of the walk one after another, up to the first obstacle, and
records the tag of every leaf that it comes to. Its trace is what any log gains that was there
before: writing into a log while evaluating ends in the same way, with the tags behind what the log
already held.
-/

namespace NumericTrees

/-! ### Evaluation with a log -/

/-- Evaluations that write into a log. What was written stays when they fail. -/
abbrev Logged := ExceptT EvalError (StateM (List Int))

namespace Logged

variable {α β : Type}

/-- How an evaluation ends that finds the given log, and the log that it leaves. -/
def runOn (x : Logged α) (log : List Int) : Except EvalError α × List Int := x.run.run log

def write (tag : Int) : Logged Unit := modify (· ++ [tag])

def ofTrace (t : Trace α) : Logged α := fun log => (t.outcome, log ++ t.tags)

lemma ofTrace_pure (a : α) : ofTrace (pure a) = pure a := by
  funext log
  change (Except.ok a, log ++ []) = (Except.ok a, log)
  rw [List.append_nil]

lemma ofTrace_bind (t : Trace α) (next : α → Trace β) :
    ofTrace (t >>= next) = ofTrace t >>= fun a => ofTrace (next a) := by
  funext log
  change ofTrace (t.andThen next) log = ExceptT.bindCont (fun a => ofTrace (next a)) t.outcome _
  rw [ofTrace, Trace.andThen]
  cases t.outcome with
  | error e => rfl
  | ok a =>
    change _ = ofTrace (next a) (log ++ t.tags)
    rw [ofTrace, List.append_assoc]

lemma ofTrace_fail (e : EvalError) : ofTrace (Trace.fail e : Trace α) = throw e := by
  funext log
  change (Except.error e, log ++ []) = (Except.error e, log)
  rw [List.append_nil]

lemma ofTrace_ofExcept (outcome : Except EvalError α) :
    ofTrace (Trace.ofExcept outcome) = ExceptT.mk (pure outcome) := by
  funext log
  change (outcome, log ++ []) = (outcome, log)
  rw [List.append_nil]

end Logged

lemma Slots.ofTrace_traverse {α β : Type} {n : Nat} (missing : Nat → Trace β)
    (visit : α → Trace β) (index : Nat) (slots : Slots α n) :
    Logged.ofTrace (slots.traverse missing visit index) =
      slots.traverse (fun i => Logged.ofTrace (missing i)) (fun a => Logged.ofTrace (visit a))
        index :=
  traverse_hom Logged.ofTrace Logged.ofTrace_pure Logged.ofTrace_bind missing visit slots index

def Terminal.evaluateLogged (store : Store) : Terminal → Logged Value
  | literal l => pure l.value
  | var v =>
    match store.value? v with
    | some value => pure value
    | none => throw (.unboundVariable v.name)
  | host h => do
    match h.tag with
    | some tag => Logged.write tag
    | none => pure ()
    ExceptT.mk (pure h.outcome)

namespace Tree

def evaluateLogged (store : Store) : Tree → Logged Value :=
  fold (Terminal.evaluateLogged store) fun op slots => do
    let inputs ← slots.traverse (fun index => throw (.missingChild op.identifier index)) id 0
    ExceptT.mk (pure (op.apply inputs))

def evaluateLoggedWithin (limits : Limits) (store : Store) (t : Tree) : Logged Value :=
  if t.depth ≤ limits.maxDepth then t.evaluateLogged store
  else throw (.depthExceeded t.depth limits.maxDepth)

lemma evaluateLogged_terminal (store : Store) (x : Terminal) :
    x.evaluateLogged store = Logged.ofTrace (x.evaluate store) := by
  cases x with
  | literal l => exact (Logged.ofTrace_pure _).symm
  | var v =>
    rw [Terminal.evaluate, Terminal.evaluateLogged]
    cases store.value? v with
    | none => exact (Logged.ofTrace_fail _).symm
    | some value => exact (Logged.ofTrace_pure _).symm
  | host h =>
    obtain ⟨identifier, arity, infer, tag, outcome⟩ := h
    cases tag with
    | none => exact (Logged.ofTrace_ofExcept outcome).symm
    | some tag => rfl

/-- Evaluating a tree with a log is evaluating it and appending its tags to the log. -/
lemma evaluateLogged_eq (store : Store) (t : Tree) :
    t.evaluateLogged store = Logged.ofTrace (t.evaluate store) := by
  induction t using Tree.induction with
  | terminal x =>
    rw [evaluateLogged, fold_terminal, evaluate_terminal]
    exact evaluateLogged_terminal store x
  | function op slots ih =>
    have hslots : Slots.traverse (fun index => throw (.missingChild op.identifier index))
        (evaluateLogged store) 0 slots =
        Logged.ofTrace (Slots.evaluateAll op.identifier (evaluate store) slots) := by
      rw [Slots.evaluateAll, Slots.ofTrace_traverse]
      simp only [Logged.ofTrace_fail]
      exact Slots.traverse_congr ih
    rw [evaluate_function, evaluateLogged, fold_function, Slots.traverse_map]
    change (Slots.traverse _ (evaluateLogged store) 0 slots >>= _) =
      Logged.ofTrace (_ >>= fun inputs => Trace.ofExcept (op.apply inputs))
    rw [hslots, Logged.ofTrace_bind]
    simp only [Logged.ofTrace_ofExcept]

lemma evaluateLoggedWithin_eq (limits : Limits) (store : Store) (t : Tree) :
    t.evaluateLoggedWithin limits store = Logged.ofTrace (t.evaluateWithin limits store) := by
  rw [evaluateLoggedWithin, evaluateWithin_eq]
  by_cases h : t.depth ≤ limits.maxDepth
  · rw [if_pos h, if_pos h, evaluateLogged_eq]
  · rw [if_neg h, if_neg h, Logged.ofTrace_fail]

end Tree

/-! ### The tags on the walk -/

def Terminal.tag? : Terminal → Option Int
  | literal _ | var _ => none
  | host h => h.tag

def Stop.tag? : Stop → Option Int
  | emptySlot _ _ | node _ _ => none
  | leaf t => t.tag?

/-- The points up to the first obstacle, which is the last one that an evaluation comes to. -/
def Stop.reached (store : Store) : List Stop → List Stop
  | [] => []
  | stop :: rest =>
    if stop.obstacle? store = none then stop :: reached store rest else [stop]

namespace Stop

variable {store : Store}

lemma reached_singleton (stop : Stop) : reached store [stop] = [stop] := by
  rw [reached, reached]
  exact ite_self _

lemma reached_of_clear {stops : List Stop} (h : ∀ stop ∈ stops, stop.obstacle? store = none) :
    reached store stops = stops := by
  induction stops with
  | nil => rfl
  | cons stop rest ih =>
    rw [List.forall_mem_cons] at h
    rw [reached, if_pos h.1, ih h.2]

lemma reached_append_of_clear {stops : List Stop} (rest : List Stop)
    (h : ∀ stop ∈ stops, stop.obstacle? store = none) :
    reached store (stops ++ rest) = stops ++ reached store rest := by
  induction stops with
  | nil => rfl
  | cons stop stops ih =>
    rw [List.forall_mem_cons] at h
    rw [List.cons_append, reached, if_pos h.1, ih h.2, List.cons_append]

lemma reached_append_of_not_clear {stops : List Stop} (rest : List Stop)
    (h : ¬ ∀ stop ∈ stops, stop.obstacle? store = none) :
    reached store (stops ++ rest) = reached store stops := by
  induction stops with
  | nil => simp at h
  | cons stop stops ih =>
    rw [List.forall_mem_cons] at h
    rw [List.cons_append, reached, reached]
    by_cases hstop : stop.obstacle? store = none
    · have hstops := fun hclear => h ⟨hstop, hclear⟩
      rw [if_pos hstop, if_pos hstop, ih hstops]
    · rw [if_neg hstop, if_neg hstop]

lemma reached_of_split {before after : List Stop} {stop : Stop}
    (hclear : ∀ earlier ∈ before, earlier.obstacle? store = none)
    (hstop : stop.obstacle? store ≠ none) :
    reached store (before ++ stop :: after) = before ++ [stop] := by
  rw [reached_append_of_clear _ hclear, reached, if_neg hstop]

end Stop

namespace Tree

variable {store : Store}

lemma tags_evaluate_terminal (x : Terminal) :
    (x.evaluate store).tags = x.tag?.toList := by
  cases x with
  | literal l => rfl
  | host h => rfl
  | var v =>
    rw [Terminal.evaluate]
    cases store.value? v <;> rfl

lemma tags_evaluate_function (op : Operation) (slots : Slots Tree op.arity) :
    ((function op slots).evaluate store).tags =
      (Slots.evaluateAll op.identifier (evaluate store) slots).tags := by
  rw [evaluate_function, Trace.andThen]
  cases (Slots.evaluateAll op.identifier (evaluate store) slots).outcome with
  | error e => rfl
  | ok inputs =>
    change _ ++ [] = _
    rw [List.append_nil]

lemma walk_clear_iff {t : Tree} :
    (∀ stop ∈ t.walk, stop.obstacle? store = none) ↔
      ∃ value, (t.evaluate store).outcome = .ok value := by
  rw [← List.findSome?_eq_none_iff, findSome?_walk]
  cases (t.evaluate store).outcome <;> simp [failure?]

lemma tags_traverse {n : Nat} (node : String) (index : Nat) (slots : Slots Tree n)
    (h : ∀ child ∈ Slots.children slots,
      (child.evaluate store).tags = (Stop.reached store child.walk).filterMap Stop.tag?) :
    (slots.traverse (fun i => Trace.fail (.missingChild node i)) (evaluate store) index).tags =
      (Stop.reached store (walkSlots node index slots)).filterMap Stop.tag? := by
  induction slots generalizing index with
  | nil => rfl
  | cons slot rest ih =>
    cases slot with
    | none => rfl
    | some child =>
      rw [Slots.children_cons_some, List.forall_mem_cons] at h
      obtain ⟨hchild, hrest⟩ := h
      have htail := ih (index + 1) hrest
      rw [walkSlots, Slots.traverse]
      -- The other slots are visited exactly when the walk through the child meets no obstacle.
      cases houtcome : (child.evaluate store).outcome with
      | error e =>
        have hfails : ¬ ∀ stop ∈ child.walk, stop.obstacle? store = none := by
          intro hclear
          obtain ⟨value, hvalue⟩ := walk_clear_iff.mp hclear
          rw [houtcome] at hvalue
          cases hvalue
        rw [Stop.reached_append_of_not_clear _ hfails, ← hchild]
        change (Trace.andThen _ _).tags = _
        rw [Trace.andThen, houtcome]
      | ok value =>
        have hclear := walk_clear_iff.mpr ⟨value, houtcome⟩
        rw [Stop.reached_of_clear hclear] at hchild
        rw [Stop.reached_append_of_clear _ hclear, List.filterMap_append, ← hchild, ← htail]
        change (Trace.andThen _ _).tags = _
        rw [Trace.andThen, houtcome]
        change _ ++ (Trace.andThen _ _).tags = _
        rw [Trace.andThen]
        cases (Slots.traverse (fun i => Trace.fail (.missingChild node i)) (evaluate store)
          (index + 1) rest).outcome with
        | error e => rfl
        | ok tail =>
          change _ ++ (_ ++ []) = _
          rw [List.append_nil]

/-- An evaluation records the tags of the points that it comes to, in the order of the walk. -/
lemma tags_evaluate (t : Tree) :
    (t.evaluate store).tags = (Stop.reached store t.walk).filterMap Stop.tag? := by
  induction t using Tree.induction with
  | terminal x =>
    rw [evaluate_terminal, tags_evaluate_terminal, walk, Stop.reached_singleton,
      List.filterMap_cons, Stop.tag?, List.filterMap_nil]
    cases x.tag? <;> rfl
  | function op slots ih =>
    rw [tags_evaluate_function, Slots.evaluateAll, tags_traverse _ _ _ ih, walk]
    by_cases hclear : ∀ stop ∈ walkSlots op.identifier 0 slots, stop.obstacle? store = none
    · rw [Stop.reached_append_of_clear _ hclear, Stop.reached_of_clear hclear,
        Stop.reached_singleton, List.filterMap_append]
      change _ = _ ++ []
      rw [List.append_nil]
    · rw [Stop.reached_append_of_not_clear _ hclear]

lemma filterMap_tag?_walkSlots {n : Nat} (node : String) (index : Nat) (slots : Slots Tree n)
    (h : ∀ child ∈ Slots.children slots,
      child.walk.filterMap Stop.tag? = child.terminals.filterMap Terminal.tag?) :
    (walkSlots node index slots).filterMap Stop.tag? =
      ((Slots.children slots).flatMap terminals).filterMap Terminal.tag? := by
  induction slots generalizing index with
  | nil => rfl
  | cons slot rest ih =>
    cases slot with
    | none =>
      rw [Slots.children_cons_none] at h ⊢
      exact ih (index + 1) h
    | some child =>
      rw [Slots.children_cons_some, List.forall_mem_cons] at h
      rw [walkSlots, Slots.children_cons_some, List.flatMap_cons, List.filterMap_append,
        List.filterMap_append, h.1, ih (index + 1) h.2]

/-- The walk comes to the leaves from the left to the right, to each of them once. -/
lemma filterMap_tag?_walk (t : Tree) :
    t.walk.filterMap Stop.tag? = t.terminals.filterMap Terminal.tag? := by
  induction t using Tree.induction with
  | terminal x =>
    rw [walk, terminals_terminal, List.filterMap_cons, List.filterMap_cons, Stop.tag?]
    rfl
  | function op slots ih =>
    rw [walk, List.filterMap_append, filterMap_tag?_walkSlots _ _ _ ih, terminals_function]
    change _ ++ [] = _
    rw [List.append_nil]

lemma walkSlots_clear {n : Nat} {slots : Slots Tree n} (node : String) (index : Nat)
    (h : ∀ slot ∈ slots.toList, ∃ child value,
      slot = some child ∧ (child.evaluate store).outcome = .ok value) :
    ∀ stop ∈ walkSlots node index slots, stop.obstacle? store = none := by
  induction slots generalizing index with
  | nil => simp [walkSlots]
  | cons slot rest ih =>
    rw [Tuple.toList, List.forall_mem_cons] at h
    obtain ⟨⟨child, value, rfl, hvalue⟩, hrest⟩ := h
    rw [walkSlots, List.forall_mem_append]
    exact ⟨walk_clear_iff.mpr ⟨value, hvalue⟩, ih (index + 1) hrest⟩

/-- Where the children of a node have values, all leaves below the node are recorded, even if the
node refuses these values or protects its result. -/
lemma tags_of_children {op : Operation} {slots : Slots Tree op.arity}
    (h : ∀ slot ∈ slots.toList, ∃ child value,
      slot = some child ∧ (child.evaluate store).outcome = .ok value) :
    ((function op slots).evaluate store).tags =
      (function op slots).terminals.filterMap Terminal.tag? := by
  have hclear := walkSlots_clear op.identifier 0 h
  rw [tags_evaluate, ← filterMap_tag?_walk, walk, Stop.reached_append_of_clear _ hclear,
    Stop.reached_singleton]

/-- Evaluation records leaves from the left to the right, each of them once, as far as the walk
comes without an obstacle; whatever log it finds, it appends these tags. A leaf that has a tag and
fails is recorded as the last one. -/
theorem evaluate_records_walk (limits : Limits) (store : Store) (t : Tree) (log : List Int) :
    (t.evaluateLogged store).runOn log =
      ((t.evaluate store).outcome, log ++ (t.evaluate store).tags) ∧
    (∀ before stop after, t.walk = before ++ stop :: after →
      (∀ earlier ∈ before, earlier.obstacle? store = none) → stop.obstacle? store ≠ none →
      (t.evaluate store).tags = before.filterMap Stop.tag? ++ stop.tag?.toList) ∧
    (∀ value, (t.evaluate store).outcome = .ok value →
      (t.evaluate store).tags = t.terminals.filterMap Terminal.tag?) ∧
    (∀ op slots, t = function op slots →
      (∀ slot ∈ slots.toList, ∃ child value,
        slot = some child ∧ (child.evaluate store).outcome = .ok value) →
      (t.evaluate store).tags = t.terminals.filterMap Terminal.tag?) ∧
    (t.evaluateLoggedWithin limits store).runOn log =
      ((t.evaluateWithin limits store).outcome, log ++ (t.evaluateWithin limits store).tags) ∧
    (t.height ≤ limits.maxDepth →
      (t.evaluateWithin limits store).tags = (t.evaluate store).tags) ∧
    (limits.maxDepth < t.height → (t.evaluateWithin limits store).tags = []) := by
  refine ⟨?_, ?_, ?_, ?_, ?_, ?_, ?_⟩
  · rw [evaluateLogged_eq]
    rfl
  · intro before stop after hwalk hclear hstop
    rw [tags_evaluate, hwalk, Stop.reached_of_split hclear hstop, List.filterMap_append,
      List.filterMap_cons, List.filterMap_nil]
    cases stop.tag? <;> rfl
  · intro value hvalue
    have hclear := walk_clear_iff.mpr ⟨value, hvalue⟩
    rw [tags_evaluate, Stop.reached_of_clear hclear, filterMap_tag?_walk]
  · rintro op slots rfl hslots
    exact tags_of_children hslots
  · rw [evaluateLoggedWithin_eq]
    rfl
  · intro h
    rw [evaluateWithin_of_height_le h]
  · intro h
    rw [evaluateWithin_of_lt_height h]

/-- A power refuses a text after all three of its leaves, and the leaf behind it is not reached. -/
theorem evaluate_records_walk_refused :
    let recorded (tag : Int) (value : Value) : Tree :=
      terminal (.host (.recording "REC" tag value))
    let slots : Slots Tree 3 := .cons (some (recorded 1 (.number (.int32 0))))
      (.cons (some (recorded 2 (.str "s"))) (.cons (some (recorded 1 (.number (.int64 0)))) .nil))
    let t := division (.zero false) (some (function .power slots))
      (some (recorded 4 (.number (.int32 0))))
    (∀ slot ∈ slots.toList, ∃ child value,
      slot = some child ∧ (child.evaluate .empty).outcome = .ok value) ∧
    ((function .power slots).evaluate .empty).tags = [1, 2, 1] ∧
    (t.evaluate .empty).tags = [1, 2, 1] ∧ ((t.evaluateLogged .empty).runOn [7]).2 = [7, 1, 2, 1] ∧
    (t.evaluateWithin ⟨3⟩ .empty).tags = [1, 2, 1] ∧ (t.evaluateWithin ⟨2⟩ .empty).tags = [] := by
  intro recorded slots t
  let before := (Slots.children slots).flatMap walk
  obtain ⟨hlogged, hfirst, _, _, _, hwithin, _⟩ := evaluate_records_walk ⟨3⟩ .empty t [7]
  obtain ⟨_, _, _, _, _, _, hbeyond⟩ := evaluate_records_walk ⟨2⟩ .empty t [7]
  obtain ⟨_, _, _, hnode, _⟩ := evaluate_records_walk ⟨2⟩ .empty (function .power slots) [7]
  have hslots : ∀ slot ∈ slots.toList, ∃ child value,
      slot = some child ∧ (child.evaluate .empty).outcome = .ok value := by
    simp [slots, recorded, Tuple.toList, evaluate_terminal, Terminal.evaluate,
      HostTerminal.evaluate, HostTerminal.recording]
  have hclear : ∀ earlier ∈ before, earlier.obstacle? .empty = none := by decide
  have hrefused : (Stop.node .power slots).obstacle? .empty ≠ none := by decide
  have htags : (t.evaluate .empty).tags = [1, 2, 1] := hfirst before _ _ rfl hclear hrefused
  refine ⟨hslots, hnode _ _ rfl hslots, htags, ?_, ?_, hbeyond (by decide)⟩
  · rw [hlogged, htags]
    rfl
  · rw [hwithin (by decide), htags]

end Tree

end NumericTrees
