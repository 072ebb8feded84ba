import NumericTrees.Proofs.ExactCoercion

/-!
# Coercion and order

Coercion keeps the order of numbers, because both ways to find a counterpart do: cutting off the
fraction and clamping, and going to the nearest number. The narrowing of integers is the exception,
and keeps order only within the range of the target.
-/

namespace NumericTrees

lemma towardZero_mono {p q : ℚ} (h : p ≤ q) : towardZero p ≤ towardZero q := by
  unfold towardZero
  split
  · split
    · exact Int.ceil_le_ceil h
    · next hp hq =>
      have hceil : ⌈p⌉ ≤ 0 := Int.ceil_le.mpr (by exact_mod_cast hp.le)
      exact hceil.trans (Int.floor_nonneg.mpr (not_lt.mp hq))
  · split
    · next hp hq => exact absurd (h.trans_lt hq) hp
    · exact Int.floor_le_floor h

namespace Quantity

/-- The order of quantities, with the infinities at its ends. A NaN has no place in it. -/
def AtMost : Quantity → Quantity → Prop
  | rational p, rational q => p ≤ q
  | rational _, infinity negative => negative = false
  | infinity negative, rational _ => negative = true
  | infinity negative, infinity negative' => negative = true ∨ negative' = false
  | nan, _ => False
  | _, nan => False

instance : LE Quantity := ⟨AtMost⟩

variable {a b : Quantity} {lo hi : Int}

lemma infinity_true_le (h : a ≠ nan) : infinity true ≤ a := by
  cases a with
  | rational q => exact rfl
  | infinity negative => exact .inl rfl
  | nan => exact absurd rfl h

lemma le_infinity_false (h : a ≠ nan) : a ≤ infinity false := by
  cases a with
  | rational q => exact rfl
  | infinity negative => exact .inr rfl
  | nan => exact absurd rfl h

lemma le_refl_of_ne_nan (h : a ≠ nan) : a ≤ a := by
  cases a with
  | rational q => exact le_refl q
  | infinity negative => cases negative <;> simp [LE.le, AtMost]
  | nan => exact absurd rfl h

lemma ne_nan_of_le (h : a ≤ b) : a ≠ nan ∧ b ≠ nan := by
  constructor
  · rintro rfl
    exact h
  · rintro rfl
    cases a <;> exact h

lemma clamp_mem (hlo : lo ≤ 0) (hhi : 0 ≤ hi) (a : Quantity) :
    lo ≤ a.clamp lo hi ∧ a.clamp lo hi ≤ hi := by
  cases a with
  | rational q =>
    rw [clamp]
    omega
  | infinity negative => cases negative <;> simp [clamp] <;> omega
  | nan => exact ⟨hlo, hhi⟩

lemma clamp_mono (hlo : lo ≤ 0) (hhi : 0 ≤ hi) (h : a ≤ b) : a.clamp lo hi ≤ b.clamp lo hi := by
  have ha := clamp_mem hlo hhi a
  have hb := clamp_mem hlo hhi b
  match a, b, h with
  | rational p, rational q, h =>
    have hcut := towardZero_mono h
    rw [clamp, clamp]
    omega
  | rational p, infinity false, _ => exact ha.2
  | infinity true, b, _ => exact hb.1
  | infinity false, infinity false, _ => exact le_rfl

end Quantity

namespace Binary

variable {f : Format} {x y : Binary f} {p q : ℚ} {a b : Quantity}

lemma IsNearest.quantity_of_overflow_le (h : x.IsNearest q) (hq : f.overflow ≤ q) :
    x.quantity = .infinity false := by
  have hpos : 0 < q := f.overflow_pos.trans_le hq
  have hinfinite : x.isInfinite = true := h.isInfinite_iff.mpr (hq.trans (le_abs_self q))
  rw [eq_infinity_of_isInfinite hinfinite, h.nonnegative_of_pos hpos, quantity_infinity]

lemma IsNearest.quantity_of_le_neg_overflow (h : x.IsNearest q) (hq : q ≤ -f.overflow) :
    x.quantity = .infinity true := by
  have hneg : q < 0 := hq.trans_lt (neg_neg_of_pos f.overflow_pos)
  have hinfinite : x.isInfinite = true := h.isInfinite_iff.mpr ((le_neg_of_le_neg hq).trans
    (neg_le_abs q))
  rw [eq_infinity_of_isInfinite hinfinite, h.negative_of_neg hneg, quantity_infinity]

lemma IsNearest.quantity_ne_nan (h : x.IsNearest q) : x.quantity ≠ .nan := by
  rcases lt_or_ge |q| f.overflow with hlt | hge
  · simp [quantity_of_isFinite (h.isFinite_iff.mpr hlt)]
  · rw [eq_infinity_of_isInfinite (h.isInfinite_iff.mpr hge), quantity_infinity]
    simp

/-- Rounding past each other, two numbers would both be on the wrong side of the middle of the
results. -/
lemma IsNearest.toRat_mono (hx : x.IsNearest p) (hy : y.IsNearest q) (hxfinite : x.isFinite = true)
    (hyfinite : y.isFinite = true) (h : p < q) : x.toRat ≤ y.toRat := by
  by_contra hgt
  rw [not_le] at hgt
  have hp := hx.nearest hxfinite y hyfinite
  have hq := hy.nearest hyfinite x hxfinite
  rw [← not_lt, abs_sub_lt_iff_of_lt hgt] at hp
  rw [abs_sub_le_iff_of_lt hgt] at hq
  linarith

/-- Of two rational numbers the larger one rounds no lower. -/
lemma IsNearest.mono (hx : x.IsNearest p) (hy : y.IsNearest q) (h : p < q) :
    x.quantity ≤ y.quantity := by
  rcases le_or_gt f.overflow q with habove | hbelow
  · rw [hy.quantity_of_overflow_le habove]
    exact Quantity.le_infinity_false hx.quantity_ne_nan
  · rcases le_or_gt p (-f.overflow) with hunder | hover
    · rw [hx.quantity_of_le_neg_overflow hunder]
      exact Quantity.infinity_true_le hy.quantity_ne_nan
    · -- Neither number is beyond the threshold on either side.
      have hxfinite : x.isFinite = true := hx.isFinite_iff.mpr (abs_lt.mpr ⟨hover, h.trans hbelow⟩)
      have hyfinite : y.isFinite = true := hy.isFinite_iff.mpr (abs_lt.mpr ⟨hover.trans h, hbelow⟩)
      rw [quantity_of_isFinite hxfinite, quantity_of_isFinite hyfinite]
      exact hx.toRat_mono hy hxfinite hyfinite h

lemma quantity_zero (negative : Bool) : (zero negative : Binary f).quantity = .rational 0 := by
  have hunits : f.units (zero negative : Binary f).code = 0 := units_eq_zero_iff.mpr rfl
  have hmagnitude := abs_toRat_mul (zero negative : Binary f)
  rw [hunits, Nat.cast_zero, mul_eq_zero, abs_eq_zero] at hmagnitude
  exact quantity_eq_rational_iff.mpr
    ⟨decide_eq_true f.infinity_pos, hmagnitude.resolve_right (by positivity)⟩

lemma StandsFor.quantity_ne_nan (h : x.StandsFor a) (ha : a ≠ .nan) : x.quantity ≠ .nan := by
  cases a with
  | rational q => exact IsNearest.quantity_ne_nan h
  | infinity negative =>
    rw [show x = infinity negative from h, quantity_infinity]
    simp
  | nan => exact absurd rfl ha

lemma StandsFor.mono (hx : x.StandsFor a) (hy : y.StandsFor b) (h : a ≤ b) (hne : a ≠ b) :
    x.quantity ≤ y.quantity := by
  obtain ⟨ha, hb⟩ := Quantity.ne_nan_of_le h
  match a, b, h with
  | .rational p, .rational q, h =>
    exact IsNearest.mono hx hy (lt_of_le_of_ne h fun heq => hne (congrArg _ heq))
  | .rational p, .infinity false, _ =>
    rw [show y = infinity false from hy, quantity_infinity]
    exact Quantity.le_infinity_false (hx.quantity_ne_nan ha)
  | .infinity true, b, _ =>
    rw [show x = infinity true from hx, quantity_infinity]
    exact Quantity.infinity_true_le (hy.quantity_ne_nan hb)
  | .infinity false, .infinity false, _ => exact absurd rfl hne

end Binary

namespace Number

variable {m n : Number} {k : Kind} {a b : Quantity}

lemma StandsFor.quantity_ne_nan (h : n.StandsFor a) (ha : a ≠ .nan) : n.quantity ≠ .nan := by
  cases n with
  | int32 i | int64 i => simp [quantity]
  | float32 x | float64 x => exact Binary.StandsFor.quantity_ne_nan h ha

/-- The counterparts of two quantities in one kind are in the order of the quantities. -/
lemma StandsFor.mono (hkind : m.kind = n.kind) (hm : m.StandsFor a) (hn : n.StandsFor b)
    (h : a ≤ b) (hne : a ≠ b) : m.quantity ≤ n.quantity := by
  have hinteger {i j : Int} (h : i ≤ j) : Quantity.rational i ≤ .rational j :=
    show (i : ℚ) ≤ j by exact_mod_cast h
  cases m <;> cases n <;> cases hkind
  · apply hinteger
    rw [hm, hn]
    exact Quantity.clamp_mono (by decide) (by decide) h
  · apply hinteger
    rw [hm, hn]
    exact Quantity.clamp_mono (by decide) (by decide) h
  · exact Binary.StandsFor.mono hm hn h hne
  · exact Binary.StandsFor.mono hm hn h hne

lemma quantity_of_isZero (h : n.IsZero) : n.quantity = .rational 0 := by
  cases h with
  | int32 | int64 => exact congrArg Quantity.rational Int.cast_zero
  | float32 negative | float64 negative => exact Binary.quantity_zero negative

lemma represents_zero (k : Kind) : k.Represents 0 := by
  cases k with
  | int32 => exact ⟨int32 0, rfl, quantity_of_isZero .int32⟩
  | int64 => exact ⟨int64 0, rfl, quantity_of_isZero .int64⟩
  | float32 => exact ⟨float32 (.zero false), rfl, quantity_of_isZero (.float32 false)⟩
  | float64 => exact ⟨float64 (.zero false), rfl, quantity_of_isZero (.float64 false)⟩

/-- Zeros of both signs have counterparts with one quantity, and no two other numbers of a kind
share theirs. -/
lemma quantity_coerce_congr (hkind : m.kind = n.kind) (h : m.quantity = n.quantity)
    (hnan : n.quantity ≠ .nan) : (m.coerce k).quantity = (n.coerce k).quantity := by
  obtain rfl | ⟨hm, hn⟩ := eq_or_isZero_of_quantity_eq hkind h hnan
  · rfl
  · rw [quantity_coerce (quantity_of_isZero (isZero_iff.mp hm)) (represents_zero k),
      quantity_coerce (quantity_of_isZero (isZero_iff.mp hn)) (represents_zero k)]

lemma coerce_mono (hkind : m.kind = n.kind) (hwidens : ¬ (m.kind = .int64 ∧ k = .int32))
    (h : m.quantity ≤ n.quantity) : (m.coerce k).quantity ≤ (n.coerce k).quantity := by
  obtain ⟨-, hnan⟩ := Quantity.ne_nan_of_le h
  have hm := standsFor_coerce hwidens
  have hn := standsFor_coerce (hkind ▸ hwidens)
  by_cases heq : m.quantity = n.quantity
  · rw [quantity_coerce_congr hkind heq hnan]
    exact Quantity.le_refl_of_ne_nan (hn.quantity_ne_nan hnan)
  · exact hm.mono (by rw [kind_coerce, kind_coerce]) hn h heq

lemma int64_quantity_le_iff {i j : Int64} : (int64 i).quantity ≤ (int64 j).quantity ↔ i ≤ j := by
  rw [Int64.le_iff_toInt_le]
  exact Int.cast_le (R := ℚ)

lemma quantity_narrow {i : Int64} (hlower : Kind.int32.least ≤ i.toInt)
    (hupper : i.toInt ≤ Kind.int32.greatest) :
    ((int64 i).coerce .int32).quantity = (int64 i).quantity := by
  have hrepresents : Kind.int32.Represents i.toInt :=
    ⟨int32 (.ofInt i.toInt), rfl, by
      rw [quantity, Int32.toInt_ofInt_of_le hlower (Int.lt_add_one_of_le hupper)]⟩
  exact quantity_coerce rfl hrepresents

/-- Coercion keeps the order of the numbers of a kind that are not NaN, in every kind, with one
exception: integers narrowed to 32 bits keep their order within the range of 32 bits, and not
beyond it. -/
theorem coerce_keeps_order :
    (∀ (a b : Number) (k : Kind), a.kind = b.kind → ¬ (a.kind = .int64 ∧ k = .int32) →
      a.quantity ≤ b.quantity → (a.coerce k).quantity ≤ (b.coerce k).quantity) ∧
    (∀ i j : Int64, Kind.int32.least ≤ i.toInt → i ≤ j → j.toInt ≤ Kind.int32.greatest →
      ((int64 i).coerce .int32).quantity ≤ ((int64 j).coerce .int32).quantity) ∧
    ∃ i j : Int64, i ≤ j ∧
      ¬ ((int64 i).coerce .int32).quantity ≤ ((int64 j).coerce .int32).quantity := by
  refine ⟨fun a b k hkind hwidens h => coerce_mono hkind hwidens h,
    fun i j hlower h hupper => ?_, 2147483647, 2147483648, by decide, ?_⟩
  · have hij : i.toInt ≤ j.toInt := Int64.le_iff_toInt_le.mp h
    rw [quantity_narrow hlower (hij.trans hupper), quantity_narrow (hlower.trans hij) hupper]
    exact int64_quantity_le_iff.mpr h
  · -- The greatest integer of 32 bits stays, and the next one becomes the least.
    change ¬ ((2147483647 : Int) : ℚ) ≤ (-2147483648 : Int)
    norm_num

/-- Two doubles around the range of 32 bits, negative zero before positive zero, and two integers
to narrow. -/
theorem coerce_keeps_order_around_bounds :
    let below : Number := .float64 (.infinity true)
    let zero : Number := .float64 (.zero true)
    below.kind = zero.kind ∧ ¬ (below.kind = .int64 ∧ Kind.int32 = .int32) ∧
    below.quantity ≤ zero.quantity ∧
    (below.coerce .int32).quantity ≤ (zero.coerce .int32).quantity ∧
    Kind.int32.least ≤ (-2147483648 : Int64).toInt ∧
    (-2147483648 : Int64) ≤ 2147483647 ∧ (2147483647 : Int64).toInt ≤ Kind.int32.greatest ∧
    ((int64 (-2147483648)).coerce .int32).quantity ≤
      ((int64 2147483647).coerce .int32).quantity := by
  intro below zero
  obtain ⟨hkeeps, hnarrows, -⟩ := coerce_keeps_order
  have hle : below.quantity ≤ zero.quantity := by
    change (Binary.infinity true : Double).quantity ≤ (Binary.zero true : Double).quantity
    rw [Binary.quantity_infinity, Binary.quantity_zero]
    exact rfl
  have hwidens : ¬ (below.kind = .int64 ∧ Kind.int32 = .int32) := by decide
  exact ⟨rfl, hwidens, hle, hkeeps below zero .int32 rfl hwidens hle, by decide, by decide,
    by decide, hnarrows _ _ (by decide) (by decide) (by decide)⟩

end Number

end NumericTrees
