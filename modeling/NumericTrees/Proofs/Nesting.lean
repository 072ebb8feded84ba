import NumericTrees.Proofs.DepthLimit

/-!
# Nested calls

Evaluation and typing call themselves for the children of a node, so their calls are nested as deep
as a tree is high. A pass that gives up instead of nesting more calls than a bound never gives up on
a tree whose depth is within the bound, and it gives up on every other tree that has an answer. The
limit on the depth is therefore a bound on the recursion of both passes, and the least one.
-/

namespace NumericTrees

variable {m : Type → Type} {α β ε : Type}

/-- A way to answer for trees from the bottom up: for a terminal, for an empty slot, and for a node
whose children have their answers. -/
structure Pass (m : Type → Type) (β : Type) where
  leaf : Terminal → m β
  missing : Operation → Nat → m β
  node : (op : Operation) → Tuple β op.arity → m β

namespace Pass

/-- The answer for a tree. -/
def run [Monad m] (p : Pass m β) : Tree → m β :=
  Tree.fold p.leaf fun op slots => do
    let inputs ← Slots.traverse (p.missing op) id 0 slots
    p.node op inputs

/-- The answer for a tree, given up where more than the given number of calls would be nested. -/
def runUpTo [Monad m] (p : Pass m β) : Nat → Tree → OptionT m β
  | 0, _ => failure
  | _ + 1, .terminal x => OptionT.lift (p.leaf x)
  | calls + 1, .function op slots => do
    let missing index := OptionT.lift (p.missing op index)
    let inputs ← Slots.traverse missing (p.runUpTo calls) 0 slots
    OptionT.lift (p.node op inputs)

/-- The pass that answers with values when variables have the values in `store`. -/
def evaluation (store : Store) : Pass Trace Value where
  leaf := Terminal.evaluate store
  missing op index := .fail (.missingChild op.identifier index)
  node op inputs := .ofExcept (op.apply inputs)

/-- The pass that answers with types. -/
def typing : Pass (Except TypeError) ValueType where
  leaf := Terminal.check
  missing op index := .error (.missingChild op.identifier index)
  node op inputs := op.typeOf inputs.toList

lemma run_evaluation (store : Store) : (evaluation store).run = Tree.evaluate store := rfl

lemma run_typing : typing.run = Tree.infer := rfl

section Run

variable [Monad m] (p : Pass m β)

lemma run_terminal (x : Terminal) : p.run (.terminal x) = p.leaf x := Tree.fold_terminal ..

lemma run_function (op : Operation) (slots : Slots Tree op.arity) :
    p.run (.function op slots) = slots.traverse (p.missing op) p.run 0 >>= p.node op := by
  rw [run, Tree.fold_function, Slots.traverse_map]
  rfl

/-- A pass answers within as many nested calls as the tree is high. -/
lemma runUpTo_of_height_le [LawfulMonad m] {t : Tree} {calls : Nat} (h : t.height ≤ calls) :
    p.runUpTo calls t = OptionT.lift (p.run t) := by
  induction calls generalizing t with
  | zero => exact absurd t.height_pos (Nat.not_lt.mpr h)
  | succ calls ih =>
    cases t with
    | terminal x => rw [runUpTo, run_terminal]
    | function op slots =>
      have hchildren : ∀ child ∈ Slots.children slots,
          p.runUpTo calls child = OptionT.lift (p.run child) :=
        fun child hchild => ih (Tree.height_le_succ_iff.mp h child hchild)
      rw [runUpTo, run_function, Slots.traverse_congr hchildren, OptionT.lift_bind,
        Slots.traverse_hom (k := OptionT m) OptionT.lift OptionT.lift_pure OptionT.lift_bind]

end Run

end Pass

/-! ### Giving up -/

/-- The answer is given, unless it is given up. -/
def UnlessGivenUp (x : OptionT (Except ε) α) (y : Except ε α) : Prop :=
  x = failure ∨ x = OptionT.lift y

lemma UnlessGivenUp.bind {x : OptionT (Except ε) α} {y : Except ε α}
    {next : α → OptionT (Except ε) β} {next' : α → Except ε β} (h : UnlessGivenUp x y)
    (hnext : ∀ a, UnlessGivenUp (next a) (next' a)) : UnlessGivenUp (x >>= next) (y >>= next') := by
  obtain rfl | rfl := h
  · exact .inl rfl
  · cases y with
    | error e => exact .inr rfl
    | ok a => exact hnext a

lemma eq_pure_of_bind_eq_pure {x : OptionT (Except ε) α} {next : α → OptionT (Except ε) β} {b : β}
    (h : x >>= next = pure b) : ∃ a, x = pure a ∧ next a = pure b := by
  match x with
  | .error e => cases h
  | .ok none => cases h
  | .ok (some a) => exact ⟨a, rfl, h⟩

namespace Slots

variable {n : Nat} {slots : Slots α n} {index : Nat}

lemma unlessGivenUp_traverse {missing : Nat → Except ε β} {visit : α → Except ε β}
    {bounded : α → OptionT (Except ε) β}
    (h : ∀ child ∈ slots.children, UnlessGivenUp (bounded child) (visit child)) :
    UnlessGivenUp (slots.traverse (fun i => OptionT.lift (missing i)) bounded index)
      (slots.traverse missing visit index) := by
  induction slots generalizing index with
  | nil => exact .inr rfl
  | cons slot rest ih =>
    cases slot with
    | none =>
      rw [children_cons_none] at h
      exact .bind (.inr rfl) fun _ => .bind (ih h) fun _ => .inr rfl
    | some child =>
      rw [children_cons_some, List.forall_mem_cons] at h
      exact .bind h.1 fun _ => .bind (ih h.2) fun _ => .inr rfl

/-- A visit with all answers has given up on no child. -/
lemma eq_pure_of_traverse_eq_pure {missing : Nat → OptionT (Except ε) β}
    {bounded : α → OptionT (Except ε) β} {results : Tuple β n}
    (h : slots.traverse missing bounded index = pure results) :
    ∀ child ∈ slots.children, ∃ b, bounded child = pure b := by
  induction slots generalizing index with
  | nil => simp
  | cons slot rest ih =>
    cases slot with
    | none =>
      rw [traverse] at h
      obtain ⟨_, _, h⟩ := eq_pure_of_bind_eq_pure h
      obtain ⟨tail, htail, -⟩ := eq_pure_of_bind_eq_pure h
      rw [children_cons_none]
      exact ih htail
    | some child =>
      rw [traverse] at h
      obtain ⟨b, hhead, h⟩ := eq_pure_of_bind_eq_pure h
      obtain ⟨tail, htail, -⟩ := eq_pure_of_bind_eq_pure h
      rw [children_cons_some, List.forall_mem_cons]
      exact ⟨⟨b, hhead⟩, ih htail⟩

end Slots

namespace Pass

variable {p : Pass (Except ε) β} {t : Tree} {calls : Nat} {b : β}

lemma unlessGivenUp_runUpTo (p : Pass (Except ε) β) (calls : Nat) (t : Tree) :
    UnlessGivenUp (p.runUpTo calls t) (p.run t) := by
  induction calls generalizing t with
  | zero => exact .inl rfl
  | succ calls ih =>
    cases t with
    | terminal x =>
      rw [runUpTo, run_terminal]
      exact .inr rfl
    | function op slots =>
      rw [runUpTo, run_function]
      exact (Slots.unlessGivenUp_traverse fun child _ => ih child).bind fun _ => .inr rfl

/-- An answer takes as many nested calls as the tree is high. -/
lemma height_le_of_runUpTo_eq_pure (h : p.runUpTo calls t = pure b) : t.height ≤ calls := by
  induction calls generalizing t b with
  | zero => cases h
  | succ calls ih =>
    apply Tree.height_le_succ_iff.mpr
    cases t with
    | terminal x => simp [Tree.children]
    | function op slots =>
      rw [runUpTo] at h
      obtain ⟨inputs, hinputs, -⟩ := eq_pure_of_bind_eq_pure h
      intro child hchild
      obtain ⟨input, hinput⟩ := Slots.eq_pure_of_traverse_eq_pure hinputs child hchild
      exact ih hinput

lemma runUpTo_eq_failure (hheight : calls < t.height) (h : p.run t = .ok b) :
    p.runUpTo calls t = failure := by
  obtain hgives | hanswers := p.unlessGivenUp_runUpTo calls t
  · exact hgives
  · rw [h] at hanswers
    exact absurd (height_le_of_runUpTo_eq_pure hanswers) (Nat.not_le.mpr hheight)

/-! ### Outcomes of bounded evaluations -/

/-- How a bounded evaluation ends. -/
def outcomeUpTo (x : OptionT Trace α) : OptionT (Except EvalError) α := OptionT.mk x.run.outcome

lemma outcomeUpTo_lift (x : Trace α) : outcomeUpTo (OptionT.lift x) = OptionT.lift x.outcome := by
  obtain ⟨tags, outcome⟩ := x
  cases outcome <;> rfl

lemma outcomeUpTo_bind (x : OptionT Trace α) (next : α → OptionT Trace β) :
    outcomeUpTo (x >>= next) = outcomeUpTo x >>= fun a => outcomeUpTo (next a) := by
  match x with
  | ⟨tags, .error e⟩ => rfl
  | ⟨tags, .ok none⟩ => rfl
  | ⟨tags, .ok (some a)⟩ => rfl

/-- The pass that answers with the outcomes alone. -/
def outcomes (p : Pass Trace β) : Pass (Except EvalError) β where
  leaf x := (p.leaf x).outcome
  missing op index := (p.missing op index).outcome
  node op inputs := (p.node op inputs).outcome

lemma run_outcomes (p : Pass Trace β) (t : Tree) : p.outcomes.run t = (p.run t).outcome := by
  induction t using Tree.induction with
  | terminal x =>
    rw [run_terminal, run_terminal]
    rfl
  | function op slots ih =>
    rw [run_function, run_function, Trace.outcome_bind, Slots.traverse_congr ih,
      Slots.traverse_hom Trace.outcome Trace.outcome_pure Trace.outcome_bind]
    rfl

lemma runUpTo_outcomes (p : Pass Trace β) (calls : Nat) (t : Tree) :
    p.outcomes.runUpTo calls t = outcomeUpTo (p.runUpTo calls t) := by
  induction calls generalizing t with
  | zero => rfl
  | succ calls ih =>
    cases t with
    | terminal x =>
      rw [runUpTo, runUpTo, outcomeUpTo_lift]
      rfl
    | function op slots =>
      rw [runUpTo, runUpTo, outcomeUpTo_bind,
        Slots.traverse_hom (k := OptionT (Except EvalError)) outcomeUpTo (fun _ => rfl)
          outcomeUpTo_bind]
      simp only [outcomeUpTo_lift, funext ih]
      rfl

end Pass

/-- The depth of a tree bounds how deep the calls of evaluation and typing are nested, and no bound
below it does. Both passes answer as they would without a bound whenever that is no less than the
depth, and so every tree that the limit lets through is answered within the limit. With a smaller
bound neither reaches an answer. -/
theorem nesting_eq_depth (t : Tree) (store : Store) :
    (∀ calls, t.depth ≤ calls →
      (Pass.evaluation store).runUpTo calls t = OptionT.lift (t.evaluate store) ∧
      Pass.typing.runUpTo calls t = OptionT.lift t.infer) ∧
    (∀ limits : Limits,
      OptionT.lift (t.evaluateWithin limits store) =
        (if t.depth ≤ limits.maxDepth then (Pass.evaluation store).runUpTo limits.maxDepth t
        else OptionT.lift (.fail (.depthExceeded t.depth limits.maxDepth))) ∧
      OptionT.lift (t.inferWithin limits) =
        if t.depth ≤ limits.maxDepth then Pass.typing.runUpTo limits.maxDepth t
        else OptionT.lift (.error (.depthExceeded t.depth limits.maxDepth))) ∧
    ∀ calls, calls < t.depth →
      (∀ value, (t.evaluate store).outcome = .ok value →
        ((Pass.evaluation store).runUpTo calls t).run.outcome = .ok none) ∧
      ∀ type, t.infer = .ok type → Pass.typing.runUpTo calls t = failure := by
  have hbounded {calls : Nat} (h : t.depth ≤ calls) :
      (Pass.evaluation store).runUpTo calls t = OptionT.lift (t.evaluate store) ∧
      Pass.typing.runUpTo calls t = OptionT.lift t.infer := by
    rw [Tree.depth_eq_height] at h
    rw [← Pass.run_evaluation, ← Pass.run_typing]
    exact ⟨Pass.runUpTo_of_height_le _ h, Pass.runUpTo_of_height_le _ h⟩
  refine ⟨fun calls => hbounded, fun limits => ?_, fun calls h => ⟨?_, ?_⟩⟩
  · rw [Tree.evaluateWithin_eq, Tree.inferWithin_eq]
    split
    · next h =>
      obtain ⟨hevaluate, hinfer⟩ := hbounded h
      exact ⟨hevaluate.symm, hinfer.symm⟩
    · exact ⟨rfl, rfl⟩
  · intro value hvalue
    rw [Tree.depth_eq_height] at h
    have hrun : (Pass.evaluation store).outcomes.run t = .ok value := by
      rw [Pass.run_outcomes, Pass.run_evaluation, hvalue]
    have hgives := Pass.runUpTo_eq_failure h hrun
    rwa [Pass.runUpTo_outcomes] at hgives
  · intro type htype
    rw [Tree.depth_eq_height] at h
    rw [← Pass.run_typing] at htype
    exact Pass.runUpTo_eq_failure h htype

/-- A tree with empty slots on both sides of its only leaf, and a tree with a value. -/
theorem nesting_eq_depth_lopsided :
    let six : Tree := .ofValue (.number (.int32 6))
    let broken := Tree.power none (some (.division (.zero false) (some six) none)) none
    let whole := Tree.division (.zero false)
      (some (.division (.zero false) (some six) (some six))) (some six)
    broken.depth ≤ 3 ∧
    (Pass.evaluation .empty).runUpTo 3 broken = OptionT.lift (broken.evaluate .empty) ∧
    Pass.typing.runUpTo 3 broken = OptionT.lift broken.infer ∧
    2 < whole.depth ∧ (whole.evaluate .empty).outcome = .ok (.number (.int32 0)) ∧
    whole.infer = .ok (.numeric .int32) ∧
    ((Pass.evaluation .empty).runUpTo 2 whole).run.outcome = .ok none ∧
    Pass.typing.runUpTo 2 whole = failure := by
  intro six broken whole
  have hbroken : broken.depth ≤ 3 := by
    rw [Tree.depth_eq_height]
    decide
  have hwhole : 2 < whole.depth := by
    rw [Tree.depth_eq_height]
    decide
  have hvalue : (whole.evaluate .empty).outcome = .ok (.number (.int32 0)) := by decide
  have htype : whole.infer = .ok (.numeric .int32) := by decide
  obtain ⟨hbounded, -, -⟩ := nesting_eq_depth broken .empty
  obtain ⟨-, -, hsharp⟩ := nesting_eq_depth whole .empty
  exact ⟨hbroken, (hbounded 3 hbroken).1, (hbounded 3 hbroken).2, hwhole, hvalue, htype,
    (hsharp 2 hwhole).1 _ hvalue, (hsharp 2 hwhole).2 _ htype⟩

end NumericTrees
