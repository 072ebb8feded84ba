import Mathlib.Data.Rat.Floor
import Mathlib.Tactic.Lemma
import NumericTrees.Binary.Conversion

/-!
# Exact values of floating-point numbers

Every finite number is a rational number, a whole multiple of its format's unit. The conversions to
integers are described by it: they drop the fraction of the rational and clamp what is left.
-/

namespace NumericTrees

/-- A rational number without its fraction. -/
def towardZero (q : ℚ) : Int := if q < 0 then ⌈q⌉ else ⌊q⌋

lemma towardZero_neg {q : ℚ} (h : 0 ≤ q) : towardZero (-q) = -⌊q⌋ := by
  unfold towardZero
  split
  · rw [Int.ceil_neg]
  · have hzero : q = 0 := by linarith
    simp [hzero]

namespace Binary

variable {f : Format}

/-- The rational number that a finite number is. -/
def toRat (x : Binary f) : ℚ :=
  let magnitude : ℚ := x.units / 2 ^ f.scale
  if x.negative then -magnitude else magnitude

lemma truncate_eq (x : Binary f) : x.truncate = towardZero x.toRat := by
  have hnonneg : (0 : ℚ) ≤ x.units / 2 ^ f.scale := by positivity
  have hfloor : ⌊(x.units / 2 ^ f.scale : ℚ)⌋ = (x.units / Nat.pow 2 f.scale : Nat) := by
    have h := Rat.floor_natCast_div_natCast x.units (2 ^ f.scale)
    push_cast at h
    rw [h]
    rfl
  unfold truncate toRat
  dsimp only
  split
  · rw [towardZero_neg hnonneg, hfloor]
  · rw [towardZero, if_neg (not_lt.mpr hnonneg), hfloor]

/-- The integer that is left of a number between two bounds: zero for a NaN, a bound for an
infinity, and otherwise the number without its fraction, or the bound that it exceeds. -/
inductive ClampsTo (lo hi : Int) (x : Binary f) : Int → Prop
  | nan (h : x.isNaN = true) : ClampsTo lo hi x 0
  | infinite (h : x.isInfinite = true) : ClampsTo lo hi x (if x.negative then lo else hi)
  | finite (h : x.isFinite = true) : ClampsTo lo hi x (max lo (min hi (towardZero x.toRat)))

lemma clampsTo_toIntWithin (lo hi : Int) (x : Binary f) :
    x.ClampsTo lo hi (x.toIntWithin lo hi) := by
  unfold toIntWithin
  split
  · next hnan => exact .nan hnan
  · next hnan =>
    split
    · next hinfinite => exact .infinite hinfinite
    · next hinfinite =>
      have hfinite : x.isFinite = true := by
        simp only [isNaN, isInfinite, isFinite, decide_eq_true_eq, beq_iff_eq] at *
        omega
      rw [truncate_eq]
      exact .finite hfinite

lemma toIntWithin_mem {lo hi : Int} (x : Binary f) (hlo : lo ≤ 0) (hhi : 0 ≤ hi) :
    lo ≤ x.toIntWithin lo hi ∧ x.toIntWithin lo hi ≤ hi := by
  unfold toIntWithin
  split
  · exact ⟨hlo, hhi⟩
  · split
    · split <;> omega
    · omega

end Binary

end NumericTrees
