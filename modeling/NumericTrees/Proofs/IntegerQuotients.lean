import NumericTrees.Proofs.ExactValue
import NumericTrees.Proofs.WorkingKind

/-!
# Quotients of integers

A division of integers is exact: it answers the quotient whose remainder is smaller than the divisor
and has the sign of the dividend, except where that quotient is out of range, which happens for one
dividend and one divisor alone. Division by zero never happens, because it is protected.
-/

namespace NumericTrees

/-- A whole quotient, its remainder smaller than the divisor and zero or of the sign of the
dividend. -/
def IsQuotient (m n q : Int) : Prop :=
  ∃ r, m = q * n + r ∧ |r| < |n| ∧ (r = 0 ∨ r.sign = m.sign)

lemma isQuotient_iff {m n q : Int} (hn : n ≠ 0) : IsQuotient m n q ↔ q = m.tdiv n := by
  constructor
  · rintro ⟨r, hm, hlt, hsign⟩
    rw [Int.abs_eq_natAbs, Int.abs_eq_natAbs] at hlt
    have hm' : r + n * q = m := by rw [hm, Int.mul_comm, Int.add_comm]
    -- By the sign of the dividend, that of the remainder follows, and with it uniqueness.
    rcases Int.le_total 0 m with hpos | hneg
    · have hr : 0 ≤ r := by
        rcases hsign with h | h
        · omega
        · rw [← Int.sign_nonneg_iff, h, Int.sign_nonneg_iff]
          exact hpos
      exact ((Int.tdiv_tmod_unique hpos hn).mpr ⟨hm', hr, by omega⟩).1.symm
    · have hr : r ≤ 0 := by
        rcases hsign with h | h
        · omega
        · rw [← Int.sign_nonpos_iff, h, Int.sign_nonpos_iff]
          exact hneg
      exact ((Int.tdiv_tmod_unique' hneg hn).mpr ⟨hm', by omega, hr⟩).1.symm
  · rintro rfl
    refine ⟨m.tmod n, (Int.tdiv_mul_add_tmod m n).symm, ?_, ?_⟩
    · rw [Int.abs_eq_natAbs, Int.abs_eq_natAbs, Int.natAbs_tmod]
      exact_mod_cast Nat.mod_lt _ (Int.natAbs_pos.mpr hn)
    · by_cases hdvd : n ∣ m
      · exact .inl (Int.tmod_eq_zero_of_dvd hdvd)
      · exact .inr (by rw [Int.sign_tmod, if_neg hdvd])

/-- A quotient leaves a range around zero only where the least integer is divided by minus one. -/
lemma tdiv_bounds {h m n : Int} (hlower : -h ≤ m) (hupper : m < h)
    (hother : ¬ (m = -h ∧ n = -1)) : -h ≤ m.tdiv n ∧ m.tdiv n < h := by
  have hle := Int.natAbs_tdiv_le_natAbs m n
  by_cases hone : n.natAbs ≤ 1
  · have hn : n = 0 ∨ n = 1 ∨ n = -1 := by omega
    rcases hn with rfl | rfl | rfl
    · rw [Int.tdiv_zero]
      omega
    · rw [Int.tdiv_one]
      omega
    · rw [Int.tdiv_neg, Int.tdiv_one]
      omega
  · have hhalf : (m.tdiv n).natAbs ≤ m.natAbs / 2 := by
      rw [Int.natAbs_tdiv]
      exact Nat.div_le_div_left (by omega) (by decide)
    omega

namespace Kind

def bits : Kind → Nat
  | int32 | float32 => 32
  | int64 | float64 => 64

/-- The least integer of an integral kind. -/
def least (k : Kind) : Int := -2 ^ (k.bits - 1)

/-- The greatest integer of an integral kind. -/
def greatest (k : Kind) : Int := 2 ^ (k.bits - 1) - 1

/-- The quotient of two integers of a kind. There is none by zero and none out of range. -/
def quotient? (k : Kind) (m n : Int) : Option Int :=
  if n = 0 ∨ m.tdiv n < k.least ∨ k.greatest < m.tdiv n then none else some (m.tdiv n)

/-- The quotient of two integers of a kind, where the one quotient out of range wraps round. -/
def wrappingQuotient? (k : Kind) (m n : Int) : Option Int :=
  if m = k.least ∧ n = -1 then some k.least else k.quotient? m n

variable {k : Kind} {m n : Int}

lemma two_pow_bits (k : Kind) : (2 : Int) ^ k.bits = 2 * 2 ^ (k.bits - 1) := by
  cases k <;> decide

lemma tdiv_bounds (hlower : k.least ≤ m) (hupper : m ≤ k.greatest)
    (hother : ¬ (m = k.least ∧ n = -1)) : k.least ≤ m.tdiv n ∧ m.tdiv n ≤ k.greatest := by
  have hbounds := NumericTrees.tdiv_bounds hlower (Int.lt_of_le_sub_one hupper) hother
  exact ⟨hbounds.1, Int.le_sub_one_of_lt hbounds.2⟩

lemma bmod_of_bounds (hlower : k.least ≤ m) (hupper : m ≤ k.greatest) :
    m.bmod (2 ^ k.bits) = m := by
  have hbits := k.two_pow_bits
  unfold least at hlower
  unfold greatest at hupper
  apply Int.bmod_eq_of_le_mul_two <;> push_cast <;> omega

lemma bmod_tdiv_least (k : Kind) : (k.least.tdiv (-1)).bmod (2 ^ k.bits) = k.least := by
  cases k <;> decide

lemma wrappingQuotient?_eq (hlower : k.least ≤ m) (hupper : m ≤ k.greatest) (hn : n ≠ 0) :
    k.wrappingQuotient? m n = some ((m.tdiv n).bmod (2 ^ k.bits)) := by
  unfold wrappingQuotient?
  split
  · next h =>
    obtain ⟨rfl, rfl⟩ := h
    rw [bmod_tdiv_least]
  · next h =>
    have hbounds := tdiv_bounds hlower hupper h
    rw [bmod_of_bounds hbounds.1 hbounds.2, quotient?, if_neg (by omega)]

lemma widen_integral {j k : Kind} (hj : j ≤ .int64) (hk : k ≤ .int64) :
    j.widen k = if j = .int64 ∨ k = .int64 then .int64 else .int32 := by
  revert hj hk
  cases j <;> cases k <;> decide

end Kind

namespace Number

/-- The integer that a number of an integral kind is. -/
def integer? : Number → Option Int
  | int32 n => some n.toInt
  | int64 n => some n.toInt
  | float32 _ | float64 _ => none

/-- The quotient of two numbers in a kind, by way of quotients of integers that may be missing. -/
def quotient? : Kind → Number → Number → Option Number
  | .int32, a, b =>
    (Kind.int32.wrappingQuotient? a.toInt32.toInt b.toInt32.toInt).map fun q => int32 (.ofInt q)
  | .int64, a, b =>
    (Kind.int64.wrappingQuotient? a.toInt64.toInt b.toInt64.toInt).map fun q => int64 (.ofInt q)
  | .float32, a, b => some (float32 (a.toSingle.div b.toSingle))
  | .float64, a, b => some (float64 (a.toDouble.div b.toDouble))

/-- The protected quotient, by way of quotients that may be missing. -/
def divide? (protection : Double) (dividend divisor : Number) : Option Number :=
  let kind := dividend.kind.widen divisor.kind
  let divisor := divisor.coerce kind
  if divisor.isZero then some ((float64 protection).coerce kind)
  else quotient? kind dividend divisor

lemma wrappingQuotient?_int32 (a : Int32) {b : Int32} (hb : (b == 0) = false) :
    Kind.int32.wrappingQuotient? a.toInt b.toInt = some (a / b).toInt := by
  have hne : b.toInt ≠ 0 := by
    rw [← Int32.toInt_zero, Ne, Int32.toInt_inj]
    exact beq_eq_false_iff_ne.mp hb
  rw [Int32.toInt_div]
  exact Kind.wrappingQuotient?_eq a.minValue_le_toInt a.toInt_le hne

lemma wrappingQuotient?_int64 (a : Int64) {b : Int64} (hb : (b == 0) = false) :
    Kind.int64.wrappingQuotient? a.toInt b.toInt = some (a / b).toInt := by
  have hne : b.toInt ≠ 0 := by
    rw [← Int64.toInt_zero, Ne, Int64.toInt_inj]
    exact beq_eq_false_iff_ne.mp hb
  rw [Int64.toInt_div]
  exact Kind.wrappingQuotient?_eq a.minValue_le_toInt a.toInt_le hne

lemma quotient?_eq {k : Kind} {b : Number} (a : Number) (hb : (b.coerce k).isZero = false) :
    quotient? k a b = some (quotient k a b) := by
  cases k with
  | int32 =>
    rw [quotient?, wrappingQuotient?_int32 _ hb, Option.map_some, Int32.ofInt_toInt]
    rfl
  | int64 =>
    rw [quotient?, wrappingQuotient?_int64 _ hb, Option.map_some, Int64.ofInt_toInt]
    rfl
  | float32 => rfl
  | float64 => rfl

/-- No division comes to a quotient that is missing. -/
lemma divide?_eq (protection : Double) (a b : Number) :
    divide? protection a b = some (divide protection a b) := by
  have hwider : b.kind ≤ a.kind.widen b.kind := le_max_right a.kind b.kind
  unfold divide?
  dsimp only
  rw [divide_eq, isZero_coerce hwider]
  split
  · rfl
  · next hzero =>
    rw [Bool.not_eq_true] at hzero
    rw [quotient?_eq a (by rw [coerce_coerce, isZero_coerce hwider, hzero]), quotient_coerce_right]

/-! ### Integers as numbers -/

variable {k : Kind} {a b n : Number} {l m : Int}

lemma cases_of_integer? (h : n.integer? = some m) :
    (∃ i : Int32, n = int32 i ∧ m = i.toInt) ∨ ∃ i : Int64, n = int64 i ∧ m = i.toInt := by
  cases n with
  | int32 i => exact .inl ⟨i, rfl, (Option.some.inj h).symm⟩
  | int64 i => exact .inr ⟨i, rfl, (Option.some.inj h).symm⟩
  | float32 x => cases h
  | float64 x => cases h

lemma kind_le_of_integer? (h : n.integer? = some m) : n.kind ≤ .int64 := by
  obtain ⟨i, rfl, -⟩ | ⟨i, rfl, -⟩ := cases_of_integer? h
  · exact show Kind.int32 ≤ .int64 by decide
  · exact le_refl Kind.int64

lemma bounds_of_integer? (h : n.integer? = some m) :
    n.kind.least ≤ m ∧ m ≤ n.kind.greatest := by
  obtain ⟨i, rfl, rfl⟩ | ⟨i, rfl, rfl⟩ := cases_of_integer? h
  · exact ⟨i.minValue_le_toInt, i.toInt_le⟩
  · exact ⟨i.minValue_le_toInt, i.toInt_le⟩

lemma isZero_of_integer? (h : n.integer? = some m) : n.isZero = true ↔ m = 0 := by
  obtain ⟨i, rfl, rfl⟩ | ⟨i, rfl, rfl⟩ := cases_of_integer? h
  · rw [isZero, beq_iff_eq, ← Int32.toInt_inj, Int32.toInt_zero]
  · rw [isZero, beq_iff_eq, ← Int64.toInt_inj, Int64.toInt_zero]

lemma integer?_coerce (h : n.integer? = some m) (hlower : n.kind ≤ k) (hupper : k ≤ .int64) :
    (n.coerce k).integer? = some m := by
  obtain ⟨i, rfl, rfl⟩ | ⟨i, rfl, rfl⟩ := cases_of_integer? h
  · cases k with
    | int32 => rfl
    | int64 => exact congrArg some i.toInt_toInt64
    | float32 => exact absurd hupper (by decide)
    | float64 => exact absurd hupper (by decide)
  · cases k with
    | int32 => exact absurd hlower (show ¬ Kind.int64 ≤ .int32 by decide)
    | int64 => rfl
    | float32 => exact absurd hupper (by decide)
    | float64 => exact absurd hupper (by decide)

lemma integer?_quotient (ha : (a.coerce k).integer? = some l)
    (hb : (b.coerce k).integer? = some m) :
    (quotient k a b).integer? = some ((l.tdiv m).bmod (2 ^ k.bits)) := by
  cases k with
  | int32 =>
    cases ha
    cases hb
    exact congrArg some (Int32.toInt_div _ _)
  | int64 =>
    cases ha
    cases hb
    exact congrArg some (Int64.toInt_div _ _)
  | float32 => cases ha
  | float64 => cases ha

/-- A number between bounds of 32 bits is not changed by keeping it in 32 bits. -/
lemma toInt_ofInt_int32 {f : Format} (x : Binary f) :
    (Int32.ofInt (x.toIntWithin Int32.minValue.toInt Int32.maxValue.toInt)).toInt =
      x.toIntWithin Kind.int32.least Kind.int32.greatest := by
  have hrange := x.toIntWithin_mem (show Int32.minValue.toInt ≤ 0 by decide)
    (show 0 ≤ Int32.maxValue.toInt by decide)
  exact Int32.toInt_ofInt_of_le hrange.1 (Int.lt_add_one_of_le hrange.2)

lemma toInt_ofInt_int64 {f : Format} (x : Binary f) :
    (Int64.ofInt (x.toIntWithin Int64.minValue.toInt Int64.maxValue.toInt)).toInt =
      x.toIntWithin Kind.int64.least Kind.int64.greatest := by
  have hrange := x.toIntWithin_mem (show Int64.minValue.toInt ≤ 0 by decide)
    (show 0 ≤ Int64.maxValue.toInt by decide)
  exact Int64.toInt_ofInt_of_le hrange.1 (Int.lt_add_one_of_le hrange.2)

lemma integer?_coerce_double (x : Double) (h : k ≤ .int64) :
    ((float64 x).coerce k).integer? = some (x.toIntWithin k.least k.greatest) := by
  cases k with
  | int32 => exact congrArg some (toInt_ofInt_int32 x)
  | int64 => exact congrArg some (toInt_ofInt_int64 x)
  | float32 => exact absurd h (by decide)
  | float64 => exact absurd h (by decide)

lemma integer?_divide_zero (ha : a.integer? = some l) (hb : b.integer? = some 0)
    (protection : Double) :
    (divide protection a b).integer? =
      some (protection.toIntWithin (a.kind.widen b.kind).least (a.kind.widen b.kind).greatest) := by
  rw [divide_eq, if_pos ((isZero_of_integer? hb).mpr rfl)]
  exact integer?_coerce_double protection
    (max_le (kind_le_of_integer? ha) (kind_le_of_integer? hb))

lemma integer?_divide (ha : a.integer? = some l) (hb : b.integer? = some m) (hm : m ≠ 0)
    (protection : Double) :
    (divide protection a b).integer? =
      some ((l.tdiv m).bmod (2 ^ (a.kind.widen b.kind).bits)) := by
  have hle : a.kind.widen b.kind ≤ .int64 :=
    max_le (kind_le_of_integer? ha) (kind_le_of_integer? hb)
  rw [divide_eq, if_neg (mt (isZero_of_integer? hb).mp hm)]
  exact integer?_quotient (integer?_coerce ha (le_max_left a.kind b.kind) hle)
    (integer?_coerce hb (le_max_right a.kind b.kind) hle)

/-- Protected division of integers, its result of 64 bits where an operand is. By zero it answers
the protection value without its fraction, clamped to the range, whatever the dividend is. Otherwise
it answers the one quotient of the operands, except that the least integer by minus one is the least
integer. Never is a quotient asked for that does not exist. -/
theorem divide_integers (protection : Double) (ha : a.integer? = some l)
    (hb : b.integer? = some m) :
    let kind : Kind := if a.kind = .int64 ∨ b.kind = .int64 then .int64 else .int32
    let result := divide protection a b
    divide? protection a b = some result ∧ result.kind = kind ∧
    ∃ q, result.integer? = some q ∧ kind.least ≤ q ∧ q ≤ kind.greatest ∧
      (m = 0 → protection.ClampsTo kind.least kind.greatest q) ∧
      (m ≠ 0 → ¬ (l = kind.least ∧ m = -1) → ∀ q', IsQuotient l m q' ↔ q' = q) ∧
      (l = kind.least → m = -1 → q = kind.least) := by
  intro kind result
  have hkind : a.kind.widen b.kind = kind :=
    Kind.widen_integral (kind_le_of_integer? ha) (kind_le_of_integer? hb)
  have hresult : result.kind = kind := by rw [kind_divide, hkind]
  refine ⟨divide?_eq protection a b, hresult, ?_⟩
  by_cases hm : m = 0
  · subst hm
    have hq := integer?_divide_zero ha hb protection
    rw [hkind] at hq
    have hrange := bounds_of_integer? hq
    rw [hresult] at hrange
    exact ⟨_, hq, hrange.1, hrange.2, fun _ => protection.clampsTo_toIntWithin _ _,
      fun h => absurd rfl h, fun _ h => absurd h (by decide)⟩
  · have hq := integer?_divide ha hb hm protection
    rw [hkind] at hq
    have hrange := bounds_of_integer? hq
    rw [hresult] at hrange
    refine ⟨_, hq, hrange.1, hrange.2, fun h => absurd h hm, ?_, ?_⟩
    · intro _ hother q'
      have hle : kind ≤ .int64 :=
        hkind ▸ max_le (kind_le_of_integer? ha) (kind_le_of_integer? hb)
      have ha' := integer?_coerce ha (hkind ▸ le_max_left a.kind b.kind) hle
      have hbounds := bounds_of_integer? ha'
      rw [kind_coerce] at hbounds
      have htdiv := Kind.tdiv_bounds hbounds.1 hbounds.2 hother
      rw [isQuotient_iff hm, Kind.bmod_of_bounds htdiv.1 htdiv.2]
    · rintro rfl rfl
      exact Kind.bmod_tdiv_least kind

/-- The least integer of 32 bits by minus one wraps round in 32 bits, and does not in 64 bits. -/
theorem divide_integers_least :
    let least : Number := .int32 Int32.minValue
    least.integer? = some (-2147483648) ∧ (int32 (-1)).integer? = some (-1) ∧
    (int64 (-1)).integer? = some (-1) ∧
    (divide .nan least (int32 (-1))).integer? = some Kind.int32.least ∧
    ∃ q, (divide .nan least (int64 (-1))).integer? = some q ∧
      (∀ q', IsQuotient (-2147483648) (-1) q' ↔ q' = q) ∧ IsQuotient (-2147483648) (-1) q := by
  intro least
  have hleast : least.integer? = some (-2147483648) := by decide
  have hone : (int32 (-1)).integer? = some (-1) := by decide
  have hone' : (int64 (-1)).integer? = some (-1) := by decide
  obtain ⟨-, -, q, hq, -, -, -, -, hwraps⟩ := divide_integers .nan hleast hone
  obtain ⟨-, -, q', hq', -, -, -, hquotient, -⟩ := divide_integers .nan hleast hone'
  have hquotient := hquotient (by decide) (by decide)
  refine ⟨hleast, hone, hone', ?_, q', hq', hquotient, (hquotient q').mpr rfl⟩
  rw [hq, hwraps (by decide) rfl]
  rfl

end Number

end NumericTrees
