import NumericTrees.Proofs.ClosedForm
import NumericTrees.Proofs.RoundedQuotient
import NumericTrees.Proofs.Traversal

/-!
# Working kinds

An operation sees its operands in one kind: a division in the wider kind of the two, a power in the
doubles. Widening neither makes a zero nor loses one, so what a division protects are the zeros of
the divisor's own kind, and operands that are brought into the working kind beforehand have the same
result.
-/

namespace NumericTrees

namespace Format

variable {f : Format} {code num den : Nat}

lemma nearest_zero (f : Format) (hden : 0 < den) : f.nearest 0 den = 0 := by
  simp [nearest, roundHalfEven, hden]

lemma nearest_pos (hden : 0 < den) (h : den ≤ num) : 0 < f.nearest num den := by
  have hone : 1 ≤ num / den := Nat.div_pos h hden
  have hhidden := f.hidden_pos
  unfold nearest
  dsimp only
  -- Either the grid of whole units is rounded to, or the code has passed the first binade.
  refine lt_min ?_ f.infinity_pos
  rcases Nat.eq_zero_or_pos ((num / den).log2 - f.fractionBits) with hstep | hstep
  · have hround := roundHalfEven_ge num den
    rw [hstep, Nat.zero_mul, Nat.zero_add]
    change 0 < roundHalfEven num (den * 1)
    rw [Nat.mul_one]
    omega
  · have hpos := Nat.mul_pos hstep hhidden
    omega

lemma units_pos (h : 0 < code) : 0 < f.units code := by
  have hhidden := f.hidden_pos
  apply Nat.mul_pos _ (Nat.two_pow_pos _)
  unfold significand
  split <;> omega

end Format

namespace Binary

variable {f g : Format}

lemma isNaN_nan : (nan : Binary f).isNaN = true := by
  have hpos : 0 < Nat.pow 2 (f.fractionBits - 1) := Nat.two_pow_pos _
  apply decide_eq_true
  change f.infinity < f.infinity + Nat.pow 2 (f.fractionBits - 1)
  omega

lemma isZero_of_isNaN {x : Binary f} (h : x.isNaN = true) : x.isZero = false := by
  have hlt : f.infinity < x.code := of_decide_eq_true h
  apply beq_eq_false_iff_ne.mpr
  omega

lemma eq_zero_of_isZero {x : Binary f} (h : x.isZero = true) : x = zero x.negative := by
  obtain ⟨negative, code⟩ := x
  rw [zero, Binary.mk.injEq]
  exact ⟨rfl, Fin.ext (eq_of_beq h)⟩

lemma isZero_of_isInfinite {x : Binary f} (h : x.isInfinite = true) : x.isZero = false := by
  have hcode : x.code.val = f.infinity := eq_of_beq h
  have hpos := f.infinity_pos
  apply beq_eq_false_iff_ne.mpr
  omega

lemma isZero_ofUnits {num den : Nat} (negative : Bool) (hden : 0 < den)
    (h : num = 0 ∨ den ≤ num) : (ofUnits negative num den : Binary f).isZero = (num == 0) := by
  change (f.nearest num den == 0) = (num == 0)
  rcases h with rfl | h
  · rw [f.nearest_zero hden]
  · have hpos : 0 < f.nearest num den := Format.nearest_pos hden h
    simp only [beq_eq_beq]
    omega

lemma mul_two_pow_eq_zero_iff {n k : Nat} : n * Nat.pow 2 k = 0 ↔ n = 0 := by
  have hpos : 0 < Nat.pow 2 k := Nat.two_pow_pos k
  rw [Nat.mul_eq_zero]
  omega

lemma isZero_ofInt (n : Int) : (ofInt n : Binary f).isZero = (n == 0) := by
  rw [ofInt, isZero_ofUnits _ (by decide) (by omega)]
  simp only [beq_eq_beq, mul_two_pow_eq_zero_iff, Int.natAbs_eq_zero]

lemma units_eq_zero_iff {x : Binary f} : x.units = 0 ↔ x.code.val = 0 := by
  constructor
  · intro h
    by_contra hne
    have hpos : 0 < x.units := Format.units_pos (Nat.pos_of_ne_zero hne)
    omega
  · intro h
    rw [units, h, Format.units_zero]

lemma isZero_convert (hscale : f.scale ≤ g.scale) (x : Binary f) :
    (x.convert g).isZero = x.isZero := by
  have hpow : Nat.pow 2 f.scale ≤ Nat.pow 2 g.scale := Nat.pow_le_pow_right (by decide) hscale
  have hunits : x.units * Nat.pow 2 g.scale = 0 ∨
      Nat.pow 2 f.scale ≤ x.units * Nat.pow 2 g.scale := by
    rcases Nat.eq_zero_or_pos x.units with h | h
    · exact .inl (by rw [h, Nat.zero_mul])
    · exact .inr (hpow.trans (Nat.le_mul_of_pos_left _ h))
  unfold convert
  split
  · next hnan => rw [isZero_of_isNaN isNaN_nan, isZero_of_isNaN hnan]
  · split
    · next hinfinite =>
      have hinfinity : (infinity x.negative : Binary g).isInfinite = true := by
        simp [isInfinite, infinity]
      rw [isZero_of_isInfinite hinfinite, isZero_of_isInfinite hinfinity]
    · have hden : 0 < Nat.pow 2 f.scale := Nat.two_pow_pos f.scale
      rw [isZero_ofUnits _ hden hunits, isZero]
      simp only [beq_eq_beq, mul_two_pow_eq_zero_iff, units_eq_zero_iff]

end Binary

namespace Kind

lemma widen_widen_left (k l : Kind) : (k.widen l).widen l = k.widen l :=
  max_eq_left (le_max_right k l)

lemma widen_widen_right (k l : Kind) : k.widen (k.widen l) = k.widen l :=
  max_eq_right (le_max_left k l)

end Kind

namespace Number

lemma isZero_toInt64 {n : Number} (h : n.kind ≤ .int64) : (n.toInt64 == 0) = n.isZero := by
  cases n with
  | int32 n =>
    change (n.toInt64 == 0) = (n == 0)
    rw [Bool.eq_iff_iff, beq_iff_eq, beq_iff_eq, ← Int64.toInt_inj, ← Int32.toInt_inj,
      Int32.toInt_toInt64]
    rfl
  | int64 n => rfl
  | float32 x => exact absurd h (show ¬ Kind.float32 ≤ .int64 by decide)
  | float64 x => exact absurd h (show ¬ Kind.float64 ≤ .int64 by decide)

lemma isZero_toSingle {n : Number} (h : n.kind ≤ .float32) : n.toSingle.isZero = n.isZero := by
  cases n with
  | int32 n =>
    rw [toSingle, Binary.isZero_ofInt, isZero, Bool.eq_iff_iff, beq_iff_eq, beq_iff_eq,
      ← Int32.toInt_inj]
    rfl
  | int64 n =>
    rw [toSingle, Binary.isZero_ofInt, isZero, Bool.eq_iff_iff, beq_iff_eq, beq_iff_eq,
      ← Int64.toInt_inj]
    rfl
  | float32 x => rfl
  | float64 x => exact absurd h (show ¬ Kind.float64 ≤ .float32 by decide)

lemma isZero_toDouble (n : Number) : n.toDouble.isZero = n.isZero := by
  cases n with
  | int32 n =>
    rw [toDouble, Binary.isZero_ofInt, isZero, Bool.eq_iff_iff, beq_iff_eq, beq_iff_eq,
      ← Int32.toInt_inj]
    rfl
  | int64 n =>
    rw [toDouble, Binary.isZero_ofInt, isZero, Bool.eq_iff_iff, beq_iff_eq, beq_iff_eq,
      ← Int64.toInt_inj]
    rfl
  | float32 x => exact x.isZero_convert (by decide)
  | float64 x => rfl

lemma isZero_coerce {n : Number} {k : Kind} (h : n.kind ≤ k) : (n.coerce k).isZero = n.isZero := by
  cases k with
  | int32 =>
    cases n with
    | int32 n => rfl
    | int64 n => exact absurd h (show ¬ Kind.int64 ≤ .int32 by decide)
    | float32 x => exact absurd h (show ¬ Kind.float32 ≤ .int32 by decide)
    | float64 x => exact absurd h (show ¬ Kind.float64 ≤ .int32 by decide)
  | int64 => exact isZero_toInt64 h
  | float32 => exact isZero_toSingle h
  | float64 => exact isZero_toDouble n

/-! ### Quotients -/

/-- The quotient of two numbers in a kind, not protected. -/
def quotient : Kind → Number → Number → Number
  | .int32, a, b => int32 (a.toInt32 / b.toInt32)
  | .int64, a, b => int64 (a.toInt64 / b.toInt64)
  | .float32, a, b => float32 (a.toSingle.div b.toSingle)
  | .float64, a, b => float64 (a.toDouble.div b.toDouble)

lemma coerce_coerce (n : Number) (k : Kind) : (n.coerce k).coerce k = n.coerce k := by
  cases k <;> rfl

lemma quotient_coerce_left (k : Kind) (a b : Number) :
    quotient k (a.coerce k) b = quotient k a b := by
  cases k <;> rfl

lemma quotient_coerce_right (k : Kind) (a b : Number) :
    quotient k a (b.coerce k) = quotient k a b := by
  cases k <;> rfl

/-- A division protects the zeros of the divisor's own kind. -/
lemma divide_eq (protection : Double) (a b : Number) :
    divide protection a b =
      if b.isZero then (float64 protection).coerce (a.kind.widen b.kind)
      else quotient (a.kind.widen b.kind) a b := by
  have hwider : b.kind ≤ a.kind.widen b.kind := le_max_right a.kind b.kind
  unfold divide
  dsimp only
  rw [isZero_coerce hwider]
  split
  · rfl
  · rw [← quotient_coerce_right]
    cases a.kind.widen b.kind <;> rfl

/-- An integer zero, or a floating-point zero of either sign. -/
inductive IsZero : Number → Prop
  | int32 : IsZero (int32 0)
  | int64 : IsZero (int64 0)
  | float32 (negative : Bool) : IsZero (float32 (.zero negative))
  | float64 (negative : Bool) : IsZero (float64 (.zero negative))

lemma isZero_iff {n : Number} : n.isZero = true ↔ n.IsZero := by
  constructor
  · intro h
    cases n with
    | int32 n =>
      rw [eq_of_beq h]
      exact .int32
    | int64 n =>
      rw [eq_of_beq h]
      exact .int64
    | float32 x =>
      rw [Binary.eq_zero_of_isZero h]
      exact .float32 _
    | float64 x =>
      rw [Binary.eq_zero_of_isZero h]
      exact .float64 _
  · intro h
    cases h <;> rfl

lemma coerce_nan_ne_infinity (k : Kind) :
    (float64 .nan).coerce k ≠ (float64 (.infinity false)).coerce k := by
  cases k <;> decide

/-- A division by zero is told by the divisor as it stands. No widening makes a zero or loses one,
so the test after widening is the test before it, and only the result for a zero depends on the
protection value, which is all that it depends on beside the kinds. -/
theorem divide_protects_zeros :
    (∀ (n : Number) (k : Kind), n.kind ≤ k →
      ((n.coerce k).isZero = true ↔ n.isZero = true) ∧ (n.isZero = true ↔ n.IsZero)) ∧
    ∀ a b : Number,
      ((b.coerce (a.kind.widen b.kind)).isZero = true ↔ b.isZero = true) ∧
      (b.isZero = true → ∀ protection,
        divide protection a b = (float64 protection).coerce (a.kind.widen b.kind)) ∧
      (b.isZero = false → ∀ protection,
        divide protection a b = quotient (a.kind.widen b.kind) a b) ∧
      (b.isZero = true ↔
        ∃ protection protection', divide protection a b ≠ divide protection' a b) := by
  refine ⟨fun n k h => ⟨by rw [isZero_coerce h], isZero_iff⟩, fun a b => ?_⟩
  have hwider : b.kind ≤ a.kind.widen b.kind := le_max_right a.kind b.kind
  have hzero (h : b.isZero = true) (protection : Double) :
      divide protection a b = (float64 protection).coerce (a.kind.widen b.kind) := by
    rw [divide_eq, if_pos h]
  have hother (h : b.isZero = false) (protection : Double) :
      divide protection a b = quotient (a.kind.widen b.kind) a b := by
    rw [divide_eq, if_neg (by simp [h])]
  refine ⟨by rw [isZero_coerce hwider], hzero, hother, ?_, ?_⟩
  · intro h
    refine ⟨.nan, .infinity false, ?_⟩
    rw [hzero h, hzero h]
    exact coerce_nan_ne_infinity _
  · rintro ⟨protection, protection', hne⟩
    by_contra h
    rw [Bool.not_eq_true] at h
    exact hne ((hother h protection).trans (hother h protection').symm)

/-- The least positive number of 32 bits and a negative zero divide an integer. -/
theorem divide_protects_zeros_least :
    let least : Number := .float32 (.ofBits 1)
    let zero : Number := .float32 (.zero true)
    least.kind ≤ .float64 ∧ ((least.coerce .float64).isZero = true ↔ least.isZero = true) ∧
    least.isZero = false ∧
    divide .nan (.int64 7) least = quotient .float32 (.int64 7) least ∧
    zero.isZero = true ∧ divide .nan (.int64 7) zero = (float64 .nan).coerce .float32 := by
  intro least zero
  have hwider : least.kind ≤ .float64 := by decide
  have hother : least.isZero = false := by decide
  have hzero : zero.isZero = true := by decide
  obtain ⟨hwidening, hdivide⟩ := divide_protects_zeros
  exact ⟨hwider, (hwidening least .float64 hwider).1, hother,
    (hdivide (.int64 7) least).2.2.1 hother .nan, hzero, (hdivide (.int64 7) zero).2.1 hzero .nan⟩

lemma divide_coerce_left (protection : Double) (a b : Number) :
    divide protection (a.coerce (a.kind.widen b.kind)) b = divide protection a b := by
  rw [divide_eq, divide_eq, kind_coerce, Kind.widen_widen_left, quotient_coerce_left]

lemma divide_coerce_right (protection : Double) (a b : Number) :
    divide protection a (b.coerce (a.kind.widen b.kind)) = divide protection a b := by
  have hwider : b.kind ≤ a.kind.widen b.kind := le_max_right a.kind b.kind
  rw [divide_eq, divide_eq, kind_coerce, Kind.widen_widen_right, isZero_coerce hwider,
    quotient_coerce_right]

end Number

/-! ### Powers -/

/-- A slot holds a child that evaluates to the number. -/
def SlotYields (store : Store) (slot : Option Tree) (n : Number) : Prop :=
  ∃ child, slot = some child ∧ (child.evaluate store).outcome = .ok (.number n)

/-- A slot stays, or its child gives way to the literal of its value as a double. -/
def SlotWidened (store : Store) (slot slot' : Option Tree) : Prop :=
  slot' = slot ∨
    ∃ n, SlotYields store slot n ∧ slot' = some (.ofValue (.number (n.coerce .float64)))

variable {store : Store}

lemma Tree.outcome_of_numbers {op : Operation} {slots : Slots Tree op.arity}
    {operands : Tuple Number op.arity}
    (h : List.Forall₂ (SlotYields store) slots.toList operands.toList) :
    ((function op slots).evaluate store).outcome = .ok (.number (op.compute operands)) := by
  have hvisit : Slots.visit (.missingChild op.identifier)
      (fun child => (child.evaluate store).outcome) 0 slots =
        .ok (operands.map Value.number) := by
    rw [Slots.visit_eq_ok_iff, Tuple.toList_map, List.forall₂_map_right_iff]
    exact h
  rw [outcome_evaluate_function, hvisit]
  exact op.apply_number operands

lemma SlotWidened.exists_operand {slot slot' : Option Tree} {n : Number}
    (h : SlotWidened store slot slot') (hn : SlotYields store slot n) :
    ∃ n', SlotYields store slot' n' ∧ n'.toDouble = n.toDouble := by
  obtain rfl | ⟨m, hm, rfl⟩ := h
  · exact ⟨n, hn, rfl⟩
  · obtain ⟨child, rfl, houtcome⟩ := hn
    obtain ⟨_, hchild, houtcome'⟩ := hm
    cases hchild
    rw [houtcome] at houtcome'
    cases houtcome'
    exact ⟨n.coerce .float64, ⟨_, rfl, Tree.outcome_ofValue store _⟩, rfl⟩

lemma exists_operands {row row' : List (Option Tree)} {numbers : List Number}
    (h : List.Forall₂ (SlotWidened store) row row')
    (hnumbers : List.Forall₂ (SlotYields store) row numbers) :
    ∃ numbers', List.Forall₂ (SlotYields store) row' numbers' ∧
      numbers'.map Number.toDouble = numbers.map Number.toDouble := by
  induction h generalizing numbers with
  | nil =>
    cases hnumbers
    exact ⟨[], .nil, rfl⟩
  | cons hslot _ ih =>
    cases hnumbers with
    | cons hn hrest =>
      obtain ⟨n', hn', heq⟩ := hslot.exists_operand hn
      obtain ⟨rest', hrest', heqs⟩ := ih hrest
      exact ⟨n' :: rest', .cons hn' hrest', by rw [List.map_cons, List.map_cons, heq, heqs]⟩

lemma Operation.compute_power_congr {operands operands' : Tuple Number Operation.power.arity}
    (h : operands'.toList.map Number.toDouble = operands.toList.map Number.toDouble) :
    Operation.power.compute operands' = Operation.power.compute operands := by
  match operands, operands', h with
  | .cons a (.cons b (.cons c .nil)), .cons a' (.cons b' (.cons c' .nil)), h =>
    simp only [Tuple.toList, List.map_cons, List.map_nil, List.cons.injEq, and_true] at h
    simp only [compute, h]

lemma exists_compute_power (operands : Tuple Number Operation.power.arity) :
    ∃ x, Operation.power.compute operands = .float64 x := by
  match operands with
  | .cons a (.cons b (.cons c .nil)) => exact ⟨_, rfl⟩

/-- Operands may be widened beforehand. A division answers the same whether its dividend, its
divisor or both are brought into the wider kind first, in front of a zero as well, and the result is
of that kind. A power of numbers is a double, and answers the same with any of its children replaced
by the literals of their values as doubles. -/
theorem widened_beforehand :
    (∀ (protection : Double) (a b : Number),
      let kind := a.kind.widen b.kind
      let result := Number.divide protection a b
      result.kind = kind ∧ Number.divide protection (a.coerce kind) b = result ∧
      Number.divide protection a (b.coerce kind) = result ∧
      Number.divide protection (a.coerce kind) (b.coerce kind) = result) ∧
    ∀ (store : Store) (slots slots' : Slots Tree Operation.power.arity),
      (∀ slot ∈ slots.toList, ∃ n, SlotYields store slot n) →
      List.Forall₂ (SlotWidened store) slots.toList slots'.toList →
      ∃ x : Double,
        ((Tree.function .power slots).evaluate store).outcome = .ok (.number (.float64 x)) ∧
        ((Tree.function .power slots').evaluate store).outcome = .ok (.number (.float64 x)) := by
  constructor
  · intro protection a b kind result
    have hboth : Number.divide protection (a.coerce kind) (b.coerce kind) =
        Number.divide protection (a.coerce kind) b := by
      have h := Number.divide_coerce_right protection (a.coerce kind) b
      rw [Number.kind_coerce, Kind.widen_widen_left] at h
      exact h
    exact ⟨Number.kind_divide protection a b, Number.divide_coerce_left protection a b,
      Number.divide_coerce_right protection a b,
      hboth.trans (Number.divide_coerce_left protection a b)⟩
  · intro store slots slots' hnumbers hwidened
    obtain ⟨numbers, hslots⟩ := exists_forall₂ hnumbers
    obtain ⟨numbers', hslots', heq⟩ := exists_operands hwidened hslots
    obtain ⟨operands, rfl⟩ := Tuple.exists_toList (by rw [← hslots.length_eq, Tuple.length_toList])
    obtain ⟨operands', rfl⟩ :=
      Tuple.exists_toList (by rw [← hslots'.length_eq, Tuple.length_toList])
    obtain ⟨x, hx⟩ := exists_compute_power operands
    refine ⟨x, ?_, ?_⟩
    · rw [Tree.outcome_of_numbers hslots, hx]
    · rw [Tree.outcome_of_numbers hslots', Operation.compute_power_congr heq, hx]

/-- An integer that no double is and a number of 32 bits are replaced in a power. -/
theorem widened_beforehand_literals :
    let coefficient : Number := .int64 9007199254740993
    let term : Number := .float32 (.ofBits 1)
    let exponent : Number := .int32 2
    let literal (n : Number) : Option Tree := some (.ofValue (.number n))
    let slots : Slots Tree Operation.power.arity :=
      .cons (literal coefficient) (.cons (literal term) (.cons (literal exponent) .nil))
    let slots' : Slots Tree Operation.power.arity :=
      .cons (literal (coefficient.coerce .float64))
        (.cons (literal (term.coerce .float64)) (.cons (literal exponent) .nil))
    (∀ slot ∈ slots.toList, ∃ n, SlotYields .empty slot n) ∧
    List.Forall₂ (SlotWidened .empty) slots.toList slots'.toList ∧
    ∃ x : Double,
      ((Tree.function .power slots).evaluate .empty).outcome = .ok (.number (.float64 x)) ∧
      ((Tree.function .power slots').evaluate .empty).outcome = .ok (.number (.float64 x)) := by
  intro coefficient term exponent literal slots slots'
  have hyields (n : Number) : SlotYields .empty (literal n) n :=
    ⟨_, rfl, Tree.outcome_ofValue .empty _⟩
  have hnumbers : ∀ slot ∈ slots.toList, ∃ n, SlotYields .empty slot n := by
    intro slot hslot
    simp only [slots, Tuple.toList, List.mem_cons, List.not_mem_nil, or_false] at hslot
    obtain rfl | rfl | rfl := hslot <;> exact ⟨_, hyields _⟩
  have hwidened : List.Forall₂ (SlotWidened .empty) slots.toList slots'.toList :=
    .cons (.inr ⟨coefficient, hyields _, rfl⟩)
      (.cons (.inr ⟨term, hyields _, rfl⟩) (.cons (.inl rfl) .nil))
  exact ⟨hnumbers, hwidened, widened_beforehand.2 .empty slots slots' hnumbers hwidened⟩

end NumericTrees
