import NumericTrees.Proofs.Bindings
import NumericTrees.Proofs.ClosedForm

/-!
# Shared variables

Sessions in which variables are declared, copied, put into trees, assigned and cleared. Histories of
sessions stand with the latest command first. What handles and trees there are and what a variable
holds is read off the history alone: the variable goes back to a declaration, and the latest command
that concerns this declaration, through whichever copy it was given, decides what the variable
holds.
-/

namespace NumericTrees

/-- At the end of the path stands a leaf of the variable. -/
def Tree.HasLeaf (t : Tree) (path : List Nat) (v : Variable) : Prop :=
  t.descendant? path = some (.ofVariable v)

/-- What is done in a session. Handles on variables and trees are numbered as they are made. -/
inductive Command where
  | declare (name : String) (type : ValueType)
  | declareWith (name : String) (value : Value)
  | copyHandle (handle : Nat)
  | plant (handle : Nat)
  | build (t : Tree)
  | copyTree (tree : Nat)
  | assign (handle : Nat) (value : Value)
  | clear (handle : Nat)

structure Session where
  store : Store
  handles : List Variable
  trees : List Tree

namespace Session

def initial : Session := ⟨.empty, [], []⟩

/-- The store after a command, also after an assignment that was rejected. A command about a handle
that there is not leaves it alone. -/
def storeAfter (s : Session) : Command → Store
  | .declare name type => (s.store.declare name type).2
  | .declareWith name value => (s.store.declareWith name value).2
  | .assign handle value =>
    match s.handles[handle]? with
    | some v => (s.store.setValue v value).state
    | none => s.store
  | .clear handle =>
    match s.handles[handle]? with
    | some v => s.store.clear v
    | none => s.store
  | .copyHandle _ | .plant _ | .build _ | .copyTree _ => s.store

def newHandles (s : Session) : Command → List Variable
  | .declare name type => [(s.store.declare name type).1]
  | .declareWith name value => [(s.store.declareWith name value).1]
  | .copyHandle handle => s.handles[handle]?.toList
  | .plant _ | .build _ | .copyTree _ | .assign _ _ | .clear _ => []

/-- Trees are built from the variables that there are handles on. -/
def newTrees (s : Session) : Command → List Tree
  | .plant handle => (s.handles[handle]?.map Tree.ofVariable).toList
  | .build t => if ∀ v ∈ t.vars, v ∈ s.handles then [t] else []
  | .copyTree tree => (s.trees[tree]?.map Tree.copy).toList
  | .declare _ _ | .declareWith _ _ | .copyHandle _ | .assign _ _ | .clear _ => []

def perform (s : Session) (command : Command) : Session where
  store := s.storeAfter command
  handles := s.handles ++ s.newHandles command
  trees := s.trees ++ s.newTrees command

/-- The session after a history, the latest command first. -/
def after : List Command → Session
  | [] => initial
  | command :: earlier => (after earlier).perform command

/-- What a leaf or handle of a variable evaluates to. -/
def yields (s : Session) (v : Variable) : Except EvalError Value :=
  ((Tree.ofVariable v).evaluate s.store).outcome

/-- A variable that there is a handle on, or that some leaf of a tree is a copy of. -/
def Knows (s : Session) (v : Variable) : Prop :=
  v ∈ s.handles ∨ ∃ t ∈ s.trees, ∃ path, t.HasLeaf path v

end Session

/-! ### What a history says -/

namespace Command

/-- The number of declarations in a history. -/
def declarations : List Command → Nat
  | [] => 0
  | declare _ _ :: earlier | declareWith _ _ :: earlier => declarations earlier + 1
  | _ :: earlier => declarations earlier

/-- The handles made in a history, each with the number of the declaration that it goes back to. -/
def handles : List Command → List Variable
  | [] => []
  | declare name type :: earlier => handles earlier ++ [⟨name, type, declarations earlier⟩]
  | declareWith name value :: earlier =>
    handles earlier ++ [⟨name, value.type, declarations earlier⟩]
  | copyHandle handle :: earlier => handles earlier ++ (handles earlier)[handle]?.toList
  | _ :: earlier => handles earlier

/-- The trees made in a history: leaves of handles, trees over the variables that there were handles
on, and once more the tree that was copied. -/
def trees : List Command → List Tree
  | [] => []
  | plant handle :: earlier =>
    trees earlier ++ ((handles earlier)[handle]?.map Tree.ofVariable).toList
  | build t :: earlier => trees earlier ++ if ∀ v ∈ t.vars, v ∈ handles earlier then [t] else []
  | copyTree tree :: earlier => trees earlier ++ (trees earlier)[tree]?.toList
  | _ :: earlier => trees earlier

/-- What a command makes of the variable of a declaration, where it concerns that one. A value of
a wrong type concerns nothing. -/
def effect? (earlier : List Command) (declaration : Nat) : Command → Option (Option Value)
  | declare _ _ => if declarations earlier = declaration then some none else none
  | declareWith _ value => if declarations earlier = declaration then some (some value) else none
  | assign handle value =>
    if (handles earlier)[handle]?.any fun v => v.cell = declaration ∧ v.type = value.type then
      some (some value)
    else none
  | clear handle =>
    if (handles earlier)[handle]?.any fun v => v.cell = declaration then some none else none
  | copyHandle _ | plant _ | build _ | copyTree _ => none

/-- What the variable of a declaration holds: the latest command that concerns it decides. -/
def content (declaration : Nat) : List Command → Option Value
  | [] => none
  | command :: earlier =>
    match command.effect? earlier declaration with
    | some held => held
    | none => content declaration earlier

/-- The handle that a command writes through. -/
def target? : Command → Option Nat
  | assign handle _ | clear handle => some handle
  | declare _ _ | declareWith _ _ | copyHandle _ | plant _ | build _ | copyTree _ => none

end Command

/-! ### What a session does -/

lemma Bindings.WellTyped.mono {b : Bindings} (h : b.WellTyped) {vars : List Variable}
    (hvars : ∀ v ∈ vars, v ∈ b.vars) : WellTyped ⟨b.store, vars⟩ where
  cell_lt v hv := h.cell_lt v (hvars v hv)
  eq_of_cell v hv w hw := h.eq_of_cell v (hvars v hv) w (hvars w hw)
  typed v hv := h.typed v (hvars v hv)

namespace Session

/-- What a command writes keeps the types of the variables that there are handles on. -/
lemma wellTyped_perform {s : Session} (h : Bindings.WellTyped ⟨s.store, s.handles⟩)
    (command : Command) :
    Bindings.WellTyped ⟨(s.perform command).store, (s.perform command).handles⟩ := by
  rw [perform]
  cases command with
  | declare name type =>
    refine (h.perform (.declare name type)).mono ?_
    exact fun v hv => (List.perm_append_singleton _ _).mem_iff.mp hv
  | declareWith name value =>
    refine (h.perform (.declareWith name value)).mono ?_
    exact fun v hv => (List.perm_append_singleton _ _).mem_iff.mp hv
  | copyHandle handle =>
    refine h.mono ?_
    intro v hv
    obtain hv | hv := List.mem_append.mp hv
    · exact hv
    · exact List.mem_of_getElem? (Option.mem_toList.mp hv)
  | plant _ | build _ | copyTree _ =>
    rw [newHandles, List.append_nil]
    exact h
  | assign handle value =>
    rw [newHandles, List.append_nil, storeAfter]
    cases hv : s.handles[handle]? with
    | none => exact h
    | some v =>
      have hassign := h.perform (.assign v value)
      rw [Bindings.perform, if_pos (List.mem_of_getElem? hv)] at hassign
      exact hassign
  | clear handle =>
    rw [newHandles, List.append_nil, storeAfter]
    cases hv : s.handles[handle]? with
    | none => exact h
    | some v =>
      have hclear := h.perform (.clear v)
      rw [Bindings.perform, if_pos (List.mem_of_getElem? hv)] at hclear
      exact hclear

lemma wellTyped_after (history : List Command) :
    Bindings.WellTyped ⟨(after history).store, (after history).handles⟩ := by
  induction history with
  | nil => exact Bindings.wellTyped_initial
  | cons command earlier ih => exact wellTyped_perform ih command

/-- Cells are numbered as declarations. -/
lemma size_after (history : List Command) :
    (after history).store.cells.size = Command.declarations history := by
  induction history with
  | nil => rfl
  | cons command earlier ih =>
    rw [after, perform]
    cases command with
    | declare name type =>
      exact (Store.size_allocate _ name type none).trans (congrArg (· + 1) ih)
    | declareWith name value =>
      exact (Store.size_allocate _ name value.type (some value)).trans (congrArg (· + 1) ih)
    | copyHandle _ | plant _ | build _ | copyTree _ => exact ih
    | assign handle value =>
      rw [storeAfter]
      cases (after earlier).handles[handle]? with
      | none => exact ih
      | some v => exact (Store.size_setValue _ v value).trans ih
    | clear handle =>
      rw [storeAfter]
      cases (after earlier).handles[handle]? with
      | none => exact ih
      | some v => exact (Array.size_setIfInBounds ..).trans ih

/-- The handles of a session are those of its history. -/
lemma handles_after (history : List Command) :
    (after history).handles = Command.handles history := by
  induction history with
  | nil => rfl
  | cons command earlier ih =>
    rw [after, perform]
    cases command with
    | declare name type =>
      rw [newHandles, Store.declare, Store.allocate, ih, size_after, Command.handles]
    | declareWith name value =>
      rw [newHandles, Store.declareWith, Store.allocate, ih, size_after, Command.handles]
    | copyHandle handle => rw [newHandles, ih, Command.handles]
    | plant _ | build _ | copyTree _ | assign _ _ | clear _ =>
      exact (List.append_nil _).trans ih

/-- The trees of a session are those of its history. -/
lemma trees_after (history : List Command) : (after history).trees = Command.trees history := by
  induction history with
  | nil => rfl
  | cons command earlier ih =>
    rw [after, perform]
    cases command with
    | plant handle => rw [newTrees, ih, handles_after, Command.trees]
    | build t => rw [newTrees, ih, handles_after, Command.trees]
    | copyTree tree =>
      have hcopy : Tree.copy = id := funext Tree.copy_eq
      rw [newTrees, ih, hcopy, Option.map_id, Command.trees]
      rfl
    | declare _ _ | declareWith _ _ | copyHandle _ | assign _ _ | clear _ =>
      exact (List.append_nil _).trans ih

lemma cell_lt {history : List Command} {v : Variable} (hv : v ∈ (after history).handles) :
    v.cell < Command.declarations history := by
  rw [← size_after]
  exact (wellTyped_after history).cell_lt v hv

/-- A command changes what a variable holds by its effect on the declaration of that variable. -/
lemma value?_after_cons {history : List Command} {v : Variable}
    (hv : v ∈ (after history).handles) (command : Command) :
    (after (command :: history)).store.value? v =
      match command.effect? history v.cell with
      | some held => held
      | none => (after history).store.value? v := by
  have hlt : v.cell < (after history).store.cells.size := (wellTyped_after history).cell_lt v hv
  have hne : Command.declarations history ≠ v.cell := (cell_lt hv).ne'
  rw [after, perform]
  cases command with
  | declare name type =>
    rw [Command.effect?, if_neg hne]
    exact Store.value?_allocate_of_lt hlt name type none
  | declareWith name value =>
    rw [Command.effect?, if_neg hne]
    exact Store.value?_allocate_of_lt hlt name value.type (some value)
  | copyHandle _ | plant _ | build _ | copyTree _ => rfl
  | assign handle value =>
    rw [storeAfter, Command.effect?, ← handles_after]
    cases hw : (after history).handles[handle]? with
    | none => rfl
    | some w =>
      have hwrite : w.cell < (after history).store.cells.size :=
        (wellTyped_after history).cell_lt w (List.mem_of_getElem? hw)
      dsimp only
      rw [Option.any_some, Store.value?_setValue hwrite]
      by_cases hwritten : w.cell = v.cell ∧ w.type = value.type
      · simp [hwritten]
      · simp [hwritten]
  | clear handle =>
    rw [storeAfter, Command.effect?, ← handles_after]
    cases hw : (after history).handles[handle]? with
    | none => rfl
    | some w =>
      have hwrite : w.cell < (after history).store.cells.size :=
        (wellTyped_after history).cell_lt w (List.mem_of_getElem? hw)
      dsimp only
      rw [Option.any_some, Store.clear, Store.value?_write hwrite]
      by_cases hcell : w.cell = v.cell
      · simp [hcell]
      · simp [hcell]

lemma value?_fresh (history : List Command) (name : String) (type : ValueType)
    (content : Option Value) :
    ((after history).store.allocate name type content).2.value?
      ⟨name, type, Command.declarations history⟩ = content := by
  have hfresh : ((after history).store.allocate name type content).1 =
      ⟨name, type, Command.declarations history⟩ := by
    rw [← size_after]
    rfl
  rw [← hfresh]
  exact Store.value?_allocate_self ..

/-- After a command a handle is an older one, or it is the one of a fresh variable, which holds what
its declaration gave it. -/
lemma old_or_fresh {history : List Command} {command : Command} {v : Variable}
    (hv : v ∈ (after (command :: history)).handles) :
    v ∈ (after history).handles ∨
      command.effect? history v.cell = some ((after (command :: history)).store.value? v) := by
  rw [handles_after] at hv ⊢
  cases command with
  | declare name type =>
    rw [Command.handles, List.mem_append, List.mem_singleton] at hv
    obtain hv | rfl := hv
    · exact .inl hv
    · rw [Command.effect?, if_pos rfl]
      exact .inr (congrArg some (value?_fresh history name type none).symm)
  | declareWith name value =>
    rw [Command.handles, List.mem_append, List.mem_singleton] at hv
    obtain hv | rfl := hv
    · exact .inl hv
    · rw [Command.effect?, if_pos rfl]
      exact .inr (congrArg some (value?_fresh history name value.type (some value)).symm)
  | copyHandle handle =>
    rw [Command.handles, List.mem_append, Option.mem_toList] at hv
    exact .inl (hv.elim id List.mem_of_getElem?)
  | plant _ | build _ | copyTree _ | assign _ _ | clear _ => exact .inl hv

/-- A variable holds what the history says about its declaration. -/
lemma value?_after {history : List Command} {v : Variable} (hv : v ∈ (after history).handles) :
    (after history).store.value? v = Command.content v.cell history := by
  induction history with
  | nil => cases hv
  | cons command earlier ih =>
    rw [Command.content]
    obtain hold | hfresh := old_or_fresh hv
    · rw [value?_after_cons hold, ih hold]
    · rw [hfresh]

lemma yields_eq (s : Session) (v : Variable) :
    s.yields v = (s.store.value? v).elim (.error (.unboundVariable v.name)) .ok := by
  rw [yields, Tree.ofVariable, Tree.evaluate_terminal, Terminal.evaluate]
  cases s.store.value? v <;> rfl

/-- A new tree is made from handles or is a copy of an older one. -/
lemma mem_newTrees {s : Session} {command : Command} {t : Tree} (ht : t ∈ s.newTrees command) :
    t ∈ s.trees ∨ ∀ v ∈ t.vars, v ∈ s.handles := by
  cases command with
  | plant handle =>
    rw [newTrees, Option.mem_toList, Option.map_eq_some_iff] at ht
    obtain ⟨w, hw, rfl⟩ := ht
    right
    intro v hv
    rw [Tree.mem_vars_iff, Tree.ofVariable, Tree.terminals_terminal, List.mem_singleton] at hv
    cases hv
    exact List.mem_of_getElem? hw
  | build t' =>
    rw [newTrees] at ht
    split at ht
    · rename_i hvars
      rw [List.mem_singleton] at ht
      exact .inr (ht ▸ hvars)
    · cases ht
  | copyTree tree =>
    rw [newTrees, Option.mem_toList, Option.map_eq_some_iff] at ht
    obtain ⟨t', ht', rfl⟩ := ht
    rw [Tree.copy_eq]
    exact .inl (List.mem_of_getElem? ht')
  | declare _ _ | declareWith _ _ | copyHandle _ | assign _ _ | clear _ => cases ht

lemma mem_handles_of_mem_vars {history : List Command} {t : Tree} (ht : t ∈ (after history).trees)
    {v : Variable} (hv : v ∈ t.vars) : v ∈ (after history).handles := by
  induction history with
  | nil => cases ht
  | cons command earlier ih =>
    apply List.mem_append_left
    obtain ht | ht := List.mem_append.mp ht
    · exact ih ht
    · obtain hold | hvars := mem_newTrees ht
      · exact ih hold
      · exact hvars v hv

lemma mem_vars_of_hasLeaf {t : Tree} {path : List Nat} {v : Variable} (h : t.HasLeaf path v) :
    v ∈ t.vars := by
  induction path generalizing t with
  | nil =>
    cases h
    rw [Tree.mem_vars_iff, Tree.ofVariable, Tree.terminals_terminal]
    exact List.mem_singleton_self _
  | cons index path ih =>
    obtain ⟨child, hchild, hrest⟩ := Tree.descendant?_cons h
    cases t with
    | terminal x => cases hchild
    | function op slots => exact Tree.mem_vars_function.mpr ⟨child, hchild, ih hrest⟩

lemma exists_hasLeaf {t : Tree} {v : Variable} (h : v ∈ t.vars) : ∃ path, t.HasLeaf path v := by
  induction t using Tree.induction with
  | terminal x =>
    rw [Tree.mem_vars_iff, Tree.terminals_terminal, List.mem_singleton] at h
    subst h
    exact ⟨[], rfl⟩
  | function op slots ih =>
    obtain ⟨child, hchild, hv⟩ := Tree.mem_vars_function.mp h
    obtain ⟨path, hpath⟩ := ih child hchild hv
    rw [← Slots.filterMap_child?, List.mem_filterMap] at hchild
    obtain ⟨index, -, hindex⟩ := hchild
    refine ⟨index :: path, ?_⟩
    change (Slots.child? slots index).bind (·.descendant? path) = _
    rw [hindex]
    exact hpath

lemma knows_iff {history : List Command} {v : Variable} :
    (after history).Knows v ↔ v ∈ (after history).handles := by
  constructor
  · rintro (hv | ⟨t, ht, path, hleaf⟩)
    · exact hv
    · exact mem_handles_of_mem_vars ht (mem_vars_of_hasLeaf hleaf)
  · exact .inl

lemma effect?_eq_none {history : List Command} {w : Variable} (hw : w ∈ (after history).handles)
    {command : Command}
    (h : ∀ handle v, command.target? = some handle → (after history).handles[handle]? = some v →
      v.cell ≠ w.cell) : command.effect? history w.cell = none := by
  have hne : Command.declarations history ≠ w.cell := (cell_lt hw).ne'
  rw [handles_after] at h
  cases command with
  | declare _ _ | declareWith _ _ => rw [Command.effect?, if_neg hne]
  | copyHandle _ | plant _ | build _ | copyTree _ => rfl
  | assign handle _ | clear handle =>
    rw [Command.effect?]
    cases hv : (Command.handles history)[handle]? with
    | none => rfl
    | some v => simp [h handle v rfl hv]

/-- An assignment through a handle succeeds exactly for the declared type, and rejected it changes
nothing. -/
lemma assign_spec {history : List Command} {handle : Nat} {v : Variable}
    (hv : (after history).handles[handle]? = some v) (value : Value) :
    (value.type = v.type ∧ ∃ store, (after history).store.assign v value = .ok store ∧
      after (.assign handle value :: history) = { after history with store }) ∨
    (value.type ≠ v.type ∧
      (after history).store.assign v value = .error (.typeMismatch v.name v.type value.type) ∧
      after (.assign handle value :: history) = after history) := by
  rw [after, perform, storeAfter, newHandles, newTrees, List.append_nil, List.append_nil, hv]
  dsimp only
  rw [Store.assign]
  by_cases htype : value.type = v.type
  · rw [Store.setValue_of_type htype]
    exact .inl ⟨htype, _, rfl, rfl⟩
  · rw [Store.setValue_of_type_ne htype]
    exact .inr ⟨htype, rfl, rfl⟩

lemma trees_after_plant {history : List Command} {handle : Nat} {v : Variable}
    (hv : (after history).handles[handle]? = some v) :
    (after (.plant handle :: history)).trees = (after history).trees ++ [.ofVariable v] := by
  change _ ++ newTrees _ _ = _
  rw [newTrees, hv]
  rfl

lemma trees_after_build {history : List Command} {t : Tree}
    (h : ∀ path v, t.HasLeaf path v → v ∈ (after history).handles) :
    (after (.build t :: history)).trees = (after history).trees ++ [t] := by
  have hvars : ∀ v ∈ t.vars, v ∈ (after history).handles := by
    intro v hv
    obtain ⟨path, hpath⟩ := exists_hasLeaf hv
    exact h path v hpath
  change _ ++ newTrees _ _ = _
  rw [newTrees, if_pos hvars]

/-- A copy of a tree has its leaves where the tree has them, and they are the same variables. -/
lemma trees_after_copyTree {history : List Command} {number : Nat} {t : Tree}
    (ht : (after history).trees[number]? = some t) :
    ∃ t', (after (.copyTree number :: history)).trees = (after history).trees ++ [t'] ∧
      ∀ path v, t'.HasLeaf path v ↔ t.HasLeaf path v := by
  refine ⟨t.copy, ?_, ?_⟩
  · change _ ++ newTrees _ _ = _
    rw [newTrees, ht]
    rfl
  · intro path v
    rw [Tree.copy_eq]

/-- In every session variables are typed cells that their copies share and other declarations do
not: each holds nothing or a value of its type, what its leaves and handles yield is told by the
commands on its declaration alone, and commands through other variables leave it alone. A leaf made
of a handle is one of its variable, a tree is built with the leaves that it is given, and a copy of
a tree has leaves of the same variables in the same places. -/
theorem variables_are_shared_cells (history : List Command) :
    let s := after history
    s.handles = Command.handles history ∧ s.trees = Command.trees history ∧
    (∀ v, s.Knows v → v ∈ s.handles ∧ v.cell < Command.declarations history ∧
      (∀ value, s.store.value? v = some value → value.type = v.type) ∧
      s.yields v =
        (Command.content v.cell history).elim (.error (.unboundVariable v.name)) .ok) ∧
    (∀ v w, s.Knows v → s.Knows w → v.cell = w.cell → v = w) ∧
    (∀ handle v value, s.handles[handle]? = some v →
      (value.type = v.type ∧ ∃ store, s.store.assign v value = .ok store ∧
        after (.assign handle value :: history) = { s with store }) ∨
      (value.type ≠ v.type ∧
        s.store.assign v value = .error (.typeMismatch v.name v.type value.type) ∧
        after (.assign handle value :: history) = s)) ∧
    (∀ command w, s.Knows w →
      (∀ handle v, command.target? = some handle → s.handles[handle]? = some v →
        v.cell ≠ w.cell) →
      (after (command :: history)).yields w = s.yields w) ∧
    (∀ handle v, s.handles[handle]? = some v →
      (after (.plant handle :: history)).trees = s.trees ++ [.ofVariable v]) ∧
    (∀ t, (∀ path v, t.HasLeaf path v → v ∈ s.handles) →
      (after (.build t :: history)).trees = s.trees ++ [t]) ∧
    ∀ number t, s.trees[number]? = some t →
      ∃ t', (after (.copyTree number :: history)).trees = s.trees ++ [t'] ∧
        ∀ path v, t'.HasLeaf path v ↔ t.HasLeaf path v := by
  intro s
  refine ⟨handles_after history, trees_after history, ?_, ?_,
    fun handle v value hv => assign_spec hv value, ?_, fun handle v => trees_after_plant,
    fun t => trees_after_build, fun number t => trees_after_copyTree⟩
  · intro v hv
    have hmem := knows_iff.mp hv
    refine ⟨hmem, cell_lt hmem, (wellTyped_after history).typed v hmem, ?_⟩
    rw [yields_eq, value?_after hmem]
  · intro v w hv hw hcell
    exact (wellTyped_after history).eq_of_cell v (knows_iff.mp hv) w (knows_iff.mp hw) hcell
  · intro command w hw htarget
    have hmem := knows_iff.mp hw
    rw [yields_eq, yields_eq, value?_after_cons hmem, effect?_eq_none hmem htarget]

/-- Two variables of one name and type in a quotient. The divisor is assigned through a copy of its
handle after the quotient was built and copied, which shows in both of them and not in the dividend.
A value of another type is refused, and clearing the dividend does not concern the divisor. -/
theorem variables_are_shared_cells_in_copy :
    let int (n : Int32) : Value := .number (.int32 n)
    let x : Variable := ⟨"x", .numeric .int32, 0⟩
    let y : Variable := ⟨"x", .numeric .int32, 1⟩
    let quotient := Tree.division (.zero false) (some (.ofVariable x)) (some (.ofVariable y))
    let built : List Command := [.build quotient, .plant 0, .copyHandle 1,
      .declareWith "x" (int 2), .declareWith "x" (int 6)]
    let history := .assign 2 (int 3) :: .copyTree 1 :: built
    let s := after history
    s.trees = [.ofVariable x, quotient, quotient] ∧
    (∃ t', (after (.copyTree 1 :: built)).trees = (after built).trees ++ [t'] ∧
      t'.HasLeaf [1] y) ∧
    s.Knows x ∧ s.Knows y ∧ s.yields x = .ok (int 6) ∧ s.yields y = .ok (int 3) ∧
    after (.assign 2 (.bool true) :: history) = s ∧
    (after (.clear 0 :: history)).yields y = .ok (int 3) := by
  intro int x y quotient built history s
  obtain ⟨_, hbuilt, _, _, _, _, _, _, hcopy⟩ := variables_are_shared_cells built
  obtain ⟨hhandles, htrees, hknown, _, hassign, hspares, _⟩ := variables_are_shared_cells history
  obtain ⟨t', ht', hleaves⟩ := hcopy 1 quotient (by rw [hbuilt]; rfl)
  have hquotient : quotient ∈ s.trees := htrees ▸ List.mem_of_getElem? (i := 2) rfl
  have hx : s.Knows x := .inr ⟨quotient, hquotient, [0], rfl⟩
  have hy : s.Knows y := .inr ⟨quotient, hquotient, [1], rfl⟩
  have hvalue : s.yields y = .ok (int 3) := by
    rw [(hknown y hy).2.2.2]
    rfl
  refine ⟨htrees, ⟨t', ht', (hleaves [1] y).mpr rfl⟩, hx, hy, ?_, hvalue, ?_, ?_⟩
  · rw [(hknown x hx).2.2.2]
    rfl
  · obtain ⟨htype, _⟩ | ⟨_, _, hrefused⟩ := hassign 2 y (.bool true) (by rw [hhandles]; rfl)
    · cases htype
    · exact hrefused
  · rw [hspares (.clear 0) y hy, hvalue]
    intro handle v hhandle hv
    cases hhandle
    rw [hhandles] at hv
    cases hv
    decide

end Session

end NumericTrees
