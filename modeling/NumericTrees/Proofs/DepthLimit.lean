import NumericTrees.Proofs.Height
import NumericTrees.Proofs.Traversal
import NumericTrees.Proofs.Widening

/-!
# The limit on the depth

Typing and evaluation turn away the same trees, those higher than the limit, and both do nothing
else with them. Below the limit they answer as if there were none. This holds whatever the nodes of
a tree are and however many slots they have. Typing never reports an exceeded depth on its own, so
that report always comes from the limit; in an evaluation it can also come from a node of the host
that makes it up.
-/

namespace NumericTrees

lemma exists_of_mapM_eq_error {β γ ε : Type} {f : β → Except ε γ} {l : List β} {e : ε}
    (h : l.mapM f = .error e) : ∃ b ∈ l, f b = .error e := by
  induction l with
  | nil => cases h
  | cons b l ih =>
    rw [List.mapM_cons] at h
    cases hb : f b with
    | error e' =>
      rw [hb] at h
      cases h
      exact ⟨b, List.mem_cons_self, hb⟩
    | ok c =>
      rw [hb] at h
      cases hl : l.mapM f with
      | ok cs =>
        rw [hl] at h
        cases h
      | error e' =>
        rw [hl] at h
        cases h
        obtain ⟨b', hmem, hfails⟩ := ih hl
        exact ⟨b', List.mem_cons_of_mem _ hmem, hfails⟩

namespace Node

variable {α : Type} [Node α] {limits : Limits} {t : α}

/-- The failures of typing are empty slots and refused inputs. -/
lemma infer_eq_error {e : TypeError} (h : infer t = .error e) :
    (∃ node index, e = .missingChild node index) ∨ ∃ node inputs, e = .illTyped node inputs := by
  induction hsize : size t using Nat.strong_induction_on generalizing t with
  | _ n ih =>
    rw [infer_eq] at h
    cases hinputs : (List.range (arity t)).mapM (inferSlot t) with
    | ok inputs =>
      rw [hinputs] at h
      change typeOf t inputs = _ at h
      rw [typeOf] at h
      split at h
      · cases h
      · cases h
        exact .inr ⟨_, _, rfl⟩
    | error e' =>
      rw [hinputs] at h
      cases h
      obtain ⟨index, hindex, hslot⟩ := exists_of_mapM_eq_error hinputs
      rw [inferSlot] at hslot
      split at hslot
      · next child hchild =>
        have hlt := size_child_lt (List.mem_range.mp hindex) hchild
        exact ih _ (hsize ▸ hlt) hslot rfl
      · cases hslot
        exact .inl ⟨_, _, rfl⟩

lemma infer_ne_depthExceeded (t : α) (depth maxDepth : Nat) :
    infer t ≠ .error (.depthExceeded depth maxDepth) := by
  intro h
  obtain ⟨_, _, hmissing⟩ | ⟨_, _, hrefused⟩ := infer_eq_error h
  · cases hmissing
  · cases hrefused

lemma evaluateWithin_of_height_le (h : height t ≤ limits.maxDepth) (store : Store) :
    evaluateWithin limits store t = evaluate store t := by
  rw [evaluateWithin, depth_eq_height, if_pos h]

lemma evaluateWithin_of_lt_height (h : limits.maxDepth < height t) (store : Store) :
    evaluateWithin limits store t = ⟨[], .error (.depthExceeded (height t) limits.maxDepth)⟩ := by
  rw [evaluateWithin, depth_eq_height, if_neg (Nat.not_le.mpr h)]
  rfl

lemma inferWithin_of_height_le (h : height t ≤ limits.maxDepth) :
    inferWithin limits t = infer t := by
  rw [inferWithin, depth_eq_height, if_pos h]

lemma inferWithin_of_lt_height (h : limits.maxDepth < height t) :
    inferWithin limits t = .error (.depthExceeded (height t) limits.maxDepth) := by
  rw [inferWithin, depth_eq_height, if_neg (Nat.not_le.mpr h)]

lemma inferWithin_depthExceeded_iff :
    (∃ depth maxDepth, inferWithin limits t = .error (.depthExceeded depth maxDepth)) ↔
      limits.maxDepth < height t := by
  constructor
  · rintro ⟨depth, maxDepth, h⟩
    by_contra hle
    rw [inferWithin_of_height_le (Nat.not_lt.mp hle)] at h
    exact infer_ne_depthExceeded t _ _ h
  · exact fun h => ⟨_, _, inferWithin_of_lt_height h⟩

lemma evaluateWithin_depthExceeded_iff {store : Store}
    (hnever : ∀ depth maxDepth,
      (evaluate store t).outcome ≠ .error (.depthExceeded depth maxDepth)) :
    (∃ depth maxDepth,
        (evaluateWithin limits store t).outcome = .error (.depthExceeded depth maxDepth)) ↔
      limits.maxDepth < height t := by
  constructor
  · rintro ⟨depth, maxDepth, h⟩
    by_contra hle
    rw [evaluateWithin_of_height_le (Nat.not_lt.mp hle)] at h
    exact hnever depth maxDepth h
  · intro h
    rw [evaluateWithin_of_lt_height h]
    exact ⟨_, _, rfl⟩

/-- A higher limit changes no answer but the report of an exceeded depth. -/
lemma evaluateWithin_raise {raised : Limits} {store : Store}
    (hraised : limits.maxDepth ≤ raised.maxDepth)
    (h : (evaluateWithin limits store t).outcome ≠
      .error (.depthExceeded (height t) limits.maxDepth)) :
    evaluateWithin raised store t = evaluateWithin limits store t := by
  rcases Nat.lt_or_ge limits.maxDepth (height t) with hlt | hle
  · rw [evaluateWithin_of_lt_height hlt] at h
    exact absurd rfl h
  · rw [evaluateWithin_of_height_le hle, evaluateWithin_of_height_le (hle.trans hraised)]

lemma inferWithin_raise {raised : Limits} (hraised : limits.maxDepth ≤ raised.maxDepth)
    (h : inferWithin limits t ≠ .error (.depthExceeded (height t) limits.maxDepth)) :
    inferWithin raised t = inferWithin limits t := by
  rcases Nat.lt_or_ge limits.maxDepth (height t) with hlt | hle
  · exact absurd (inferWithin_of_lt_height hlt) h
  · rw [inferWithin_of_height_le hle, inferWithin_of_height_le (hle.trans hraised)]

/-- The loop ends after as many passes as a tree has nodes and answers the height: that of a leaf is
one, and every other node is one higher than the highest child in its slots. Typing and evaluation
reject exactly the trees higher than the limit, without evaluating anything in them; all other trees
they answer as if there were no limit, whatever the limit is raised to. The nodes may have any
number of slots, any of them empty, and any typing and evaluation. -/
theorem depth_limit (t : α) (store : Store) (limits : Limits) :
    surveyPass^[nodeCount t] ([(t, 1)], 0) = ([], height t) ∧
    depth t = height t ∧
    (∀ index < arity t, ∀ child, child? t index = some child → height child < height t) ∧
    (height t = 1 ∨
      ∃ index < arity t, ∃ child, child? t index = some child ∧ height t = height child + 1) ∧
    (limits.maxDepth < height t →
      evaluateWithin limits store t = ⟨[], .error (.depthExceeded (height t) limits.maxDepth)⟩ ∧
      inferWithin limits t = .error (.depthExceeded (height t) limits.maxDepth)) ∧
    (height t ≤ limits.maxDepth →
      evaluateWithin limits store t = evaluate store t ∧ inferWithin limits t = infer t) ∧
    ((∃ depth maxDepth, inferWithin limits t = .error (.depthExceeded depth maxDepth)) ↔
      limits.maxDepth < height t) ∧
    ((∀ depth maxDepth, (evaluate store t).outcome ≠ .error (.depthExceeded depth maxDepth)) →
      ((∃ depth maxDepth,
          (evaluateWithin limits store t).outcome = .error (.depthExceeded depth maxDepth)) ↔
        limits.maxDepth < height t)) ∧
    ∀ raised : Limits, limits.maxDepth ≤ raised.maxDepth →
      ((evaluateWithin limits store t).outcome ≠
          .error (.depthExceeded (height t) limits.maxDepth) →
        evaluateWithin raised store t = evaluateWithin limits store t) ∧
      (inferWithin limits t ≠ .error (.depthExceeded (height t) limits.maxDepth) →
        inferWithin raised t = inferWithin limits t) := by
  refine ⟨?_, depth_eq_height t, ?_, ?_, ?_, ?_, inferWithin_depthExceeded_iff,
    evaluateWithin_depthExceeded_iff,
    fun raised hraised => ⟨evaluateWithin_raise hraised, inferWithin_raise hraised⟩⟩
  · have hloop := surveyPass_iterate [(t, 1)] 0
    rw [← depth, depth_eq_height] at hloop
    simpa [pendingCount] using hloop
  · intro index hindex child hchild
    exact height_lt_of_mem_children (mem_children_iff.mpr ⟨index, hindex, hchild⟩)
  · rcases Nat.lt_or_ge 1 (height t) with hinner | hleaf
    · obtain ⟨child, hmem, hheight⟩ := exists_child_of_one_lt_height hinner
      obtain ⟨index, hindex, hchild⟩ := mem_children_iff.mp hmem
      exact .inr ⟨index, hindex, child, hchild, hheight⟩
    · exact .inl (le_antisymm hleaf (height_pos t))
  · exact fun h => ⟨evaluateWithin_of_lt_height h store, inferWithin_of_lt_height h⟩
  · exact fun h => ⟨evaluateWithin_of_height_le h store, inferWithin_of_height_le h⟩

end Node

namespace HostedTree

@[simp] lemma height_terminal (x : Terminal) : Node.height (terminal x) = 1 := by
  have hchildren : Node.children (terminal x) = [] :=
    List.filterMap_eq_nil_iff.mpr fun _ _ => rfl
  rw [Node.height_eq, hchildren]
  rfl

lemma height_function (op : Operation) (slots : Slots HostedTree op.arity) :
    Node.height (function op slots) = 1 + (slots.children.map Node.height).foldr max 0 := by
  rw [Node.height_eq, ← slots.filterMap_child?]
  rfl

lemma height_host (f : HostFunction) (slots : Slots HostedTree f.arity) :
    Node.height (host f slots) = 1 + (slots.children.map Node.height).foldr max 0 := by
  rw [Node.height_eq, ← slots.filterMap_child?]
  rfl

/-- A function of the host that takes five children and answers the value of the last one alone. -/
def lastOfFive : HostFunction where
  identifier := "LAST"
  arity := 5
  infer inputs := inputs.getLast?
  evaluate slots := Slots.evaluateAt "LAST" id slots 4

/-- A division in the last slot of a function of the host whose other slots are empty, which its
evaluation does not mind. -/
theorem depth_limit_last_slot :
    let leaf : HostedTree := terminal (.host (.recording "REC" 7 (.number (.int32 4))))
    let last := function (.division (.zero false)) (.cons (some leaf) (.cons (some leaf) .nil))
    let t := host lastOfFive
      (.cons none (.cons none (.cons none (.cons none (.cons (some last) .nil)))))
    2 < Node.height t ∧ Node.height t ≤ 3 ∧
    Node.surveyPass^[Node.nodeCount t] ([(t, 1)], 0) = ([], 3) ∧
    Node.evaluateWithin ⟨2⟩ .empty t = ⟨[], .error (.depthExceeded 3 2)⟩ ∧
    Node.inferWithin ⟨2⟩ t = .error (.depthExceeded 3 2) ∧
    Node.evaluateWithin ⟨3⟩ .empty t = ⟨[7, 7], .ok (.number (.int32 1))⟩ ∧
    Node.inferWithin ⟨3⟩ t = .error (.missingChild "LAST" 0) ∧
    (∃ depth maxDepth,
      (Node.evaluateWithin ⟨2⟩ .empty t).outcome = .error (.depthExceeded depth maxDepth)) ∧
    Node.evaluateWithin ⟨4⟩ .empty t = Node.evaluateWithin ⟨3⟩ .empty t ∧
    Node.inferWithin ⟨4⟩ t = Node.inferWithin ⟨3⟩ t := by
  intro leaf last t
  have hlast : Node.height last = 2 := by
    refine (height_function _ _).trans ?_
    change 1 + ([leaf, leaf].map Node.height).foldr max 0 = 2
    simp [leaf]
  have hheight : Node.height t = 3 := by
    refine (height_host _ _).trans ?_
    change 1 + ([last].map Node.height).foldr max 0 = 3
    simp [hlast]
  have hvalue : Node.evaluate .empty t = ⟨[7, 7], .ok (.number (.int32 1))⟩ := by rfl
  have htype : Node.infer t = .error (.missingChild "LAST" 0) := by
    rw [Node.infer_eq]
    rfl
  obtain ⟨hloop, _, _, _, hreject, _, _, hexact, _⟩ := Node.depth_limit t .empty ⟨2⟩
  obtain ⟨_, _, _, _, _, haccept, _, _, hraise⟩ := Node.depth_limit t .empty ⟨3⟩
  obtain ⟨hraiseValue, hraiseType⟩ := hraise ⟨4⟩ (by decide)
  rw [hheight] at hloop hreject haccept hexact hraiseValue hraiseType ⊢
  obtain ⟨hrejectValue, hrejectType⟩ := hreject (by decide)
  obtain ⟨hacceptValue, hacceptType⟩ := haccept le_rfl
  rw [hvalue] at hacceptValue hexact
  rw [htype] at hacceptType
  refine ⟨by decide, le_rfl, hloop, hrejectValue, hrejectType, hacceptValue, hacceptType,
    (hexact ?_).mpr (by decide), hraiseValue ?_, hraiseType ?_⟩
  · exact fun _ _ => nofun
  · rw [hacceptValue]
    exact nofun
  · rw [hacceptType]
    exact nofun

end HostedTree

/-! ### Trees of terminals and operations -/

namespace Tree

/-- The failures of an evaluation are empty slots, refused inputs and failures of terminals. -/
lemma evaluate_eq_error {store : Store} {t : Tree} {e : EvalError}
    (h : (t.evaluate store).outcome = .error e) :
    (∃ node index, e = .missingChild node index) ∨ (∃ node found, e = .nonNumeric node found) ∨
      ∃ x ∈ t.terminals, (x.evaluate store).outcome = .error e := by
  induction t using Tree.induction with
  | terminal x =>
    rw [evaluate_terminal] at h
    exact .inr (.inr ⟨x, by simp, h⟩)
  | function op slots ih =>
    rw [outcome_evaluate_function] at h
    cases hvisit : Slots.visit (.missingChild op.identifier)
        (fun child => (child.evaluate store).outcome) 0 slots with
    | ok values =>
      rw [hvisit] at h
      obtain ⟨value, hvalue, _⟩ | ⟨hrefused, _⟩ := op.apply_spec values
      · rw [Except.bind, hvalue] at h
        cases h
      · rw [Except.bind, hrefused] at h
        cases h
        exact .inr (.inl ⟨_, _, rfl⟩)
    | error e' =>
      rw [hvisit] at h
      cases h
      obtain ⟨index, rfl⟩ | ⟨child, hchild, hfails⟩ := Slots.visit_eq_error hvisit
      · exact .inl ⟨_, _, rfl⟩
      · obtain hmissing | hrefused | ⟨x, hx, hfails⟩ := ih child hchild hfails
        · exact .inl hmissing
        · exact .inr (.inl hrefused)
        · exact .inr (.inr ⟨x, mem_terminals_function.mpr ⟨child, hchild, hx⟩, hfails⟩)

variable {limits : Limits} {t : Tree}

lemma evaluate_ne_depthExceeded {store : Store} {depth maxDepth : Nat}
    (hhost : ∀ h, .host h ∈ t.terminals → h.outcome ≠ .error (.depthExceeded depth maxDepth)) :
    (t.evaluate store).outcome ≠ .error (.depthExceeded depth maxDepth) := by
  intro h
  obtain ⟨_, _, hmissing⟩ | ⟨_, _, hrefused⟩ | ⟨x, hx, hfails⟩ := evaluate_eq_error h
  · cases hmissing
  · cases hrefused
  · cases x with
    | literal l => cases hfails
    | var v =>
      rw [Terminal.evaluate] at hfails
      split at hfails
      · cases hfails
      · cases hfails
    | host h => exact hhost h hx hfails

/-- In a tree of terminals and operations only a terminal of the host can make up an exceeded
depth. -/
theorem evaluateWithin_depthExceeded_iff
    (hhost : ∀ h, .host h ∈ t.terminals →
      ∀ depth maxDepth, h.outcome ≠ .error (.depthExceeded depth maxDepth)) (store : Store) :
    (∃ depth maxDepth,
        (t.evaluateWithin limits store).outcome = .error (.depthExceeded depth maxDepth)) ↔
      limits.maxDepth < t.height := by
  rw [← height_node]
  exact Node.evaluateWithin_depthExceeded_iff fun depth maxDepth =>
    evaluate_ne_depthExceeded fun h hmem => hhost h hmem depth maxDepth

lemma evaluateWithin_of_height_le (h : t.height ≤ limits.maxDepth) (store : Store) :
    t.evaluateWithin limits store = t.evaluate store := by
  rw [evaluateWithin_eq, depth_eq_height, if_pos h]

lemma evaluateWithin_of_lt_height (h : limits.maxDepth < t.height) (store : Store) :
    t.evaluateWithin limits store = ⟨[], .error (.depthExceeded t.height limits.maxDepth)⟩ := by
  rw [evaluateWithin_eq, depth_eq_height, if_neg (Nat.not_le.mpr h)]
  rfl

lemma inferWithin_of_height_le (h : t.height ≤ limits.maxDepth) :
    t.inferWithin limits = t.infer := by
  rw [inferWithin_eq, depth_eq_height, if_pos h]

lemma inferWithin_of_lt_height (h : limits.maxDepth < t.height) :
    t.inferWithin limits = .error (.depthExceeded t.height limits.maxDepth) := by
  rw [inferWithin_eq, depth_eq_height, if_neg (Nat.not_le.mpr h)]

end Tree

end NumericTrees
