/-
# Rounding keeps the order

The float nearest to a size has the value `nearestSize`.  Of two sizes the greater is not rounded below
the lesser (`nearestSize_mono`): with one unit this is so for the mantissas, and with different units
there is a power of two between the values, which is a float itself.  So every float is a bound that
rounding does not cross, and that is how results of more than one rounding are compared here.

Integers are another such grid.  `RoundsAway q n` says that `n` is the integer nearest to `q`, a half
going away from zero; there is one, and it keeps the order too (`roundsAway_iff`, `roundAway_mono`).
-/
import Haulage.Proofs.Number.Limit

namespace Haulage

open Float.Model (UnpackedFloat)
open Float.Model.UnpackedFloat (ExtendedMantissa)

/-! ## 1. Sizes -/

theorem roundedMantissa_natCast (n : ℕ) : (leftOver n).roundedMantissa = n := by
  rw [leftOver_natCast]
  rfl

/-- Rounding a mantissa keeps the order. -/
theorem roundedMantissa_mono {r r' : ℚ} (nonneg : 0 ≤ r) (le : r ≤ r') :
    (leftOver r).roundedMantissa ≤ (leftOver r').roundedMantissa := by
  rcases le.eq_or_lt with rfl | less
  · exact le_rfl
  obtain ⟨-, above⟩ := abs_le.mp (abs_roundedMantissa_sub_le nonneg)
  obtain ⟨below, -⟩ := abs_le.mp (abs_roundedMantissa_sub_le (nonneg.trans le))
  have near : ((leftOver r).roundedMantissa : ℚ) < ((leftOver r').roundedMantissa + 1 : ℕ) := by
    push_cast
    linarith
  exact Nat.lt_succ_iff.mp (by exact_mod_cast near)

theorem exponentOf_mono {q q' : ℚ} (pos : 0 < q) (le : q ≤ q') : exponentOf q ≤ exponentOf q' := by
  have log : Int.log 2 q ≤ Int.log 2 q' := Int.log_mono_right pos le
  rw [exponentOf_eq, exponentOf_eq]
  omega

theorem nearestSize_nonneg (q : ℚ) : 0 ≤ nearestSize q := by
  unfold nearestSize
  positivity

/-- What is a whole number of units in its last place stays as it is. -/
theorem nearestSize_eq_self {q : ℚ} {n : ℕ} {e : ℤ} (value : (n * 2 ^ e : ℚ) = q)
    (le : exponentOf q ≤ e) : nearestSize q = q := by
  have units : q / 2 ^ exponentOf q = (n * 2 ^ (e - exponentOf q).toNat : ℕ) := by
    have shift : (2 : ℚ) ^ (e - exponentOf q).toNat = 2 ^ e / 2 ^ exponentOf q := by
      rw [← zpow_natCast, Int.toNat_of_nonneg (by omega), zpow_sub₀ two_ne_zero]
    push_cast
    rw [shift, ← mul_div_assoc, value]
  rw [nearestSize, units, roundedMantissa_natCast, ← units]
  exact div_mul_cancel₀ q (zpow_ne_zero _ two_ne_zero)

theorem nearestSize_zero : nearestSize 0 = 0 := by
  have mantissa : (leftOver (0 / 2 ^ exponentOf 0)).roundedMantissa = 0 := by
    rw [zero_div]
    exact_mod_cast roundedMantissa_natCast 0
  rw [nearestSize, mantissa, Nat.cast_zero, zero_mul]

theorem nearestSize_canonical {m : ℕ} {e : ℤ} (h : Canonical m e) :
    nearestSize (m * 2 ^ e) = m * 2 ^ e :=
  nearestSize_eq_self rfl (exponentOf_canonical h).le

/-- An integer of at most 53 binary digits stays as it is. -/
theorem nearestSize_natCast {n : ℕ} (short : n < 2 ^ 53) : nearestSize n = n := by
  rcases Nat.eq_zero_or_pos n with rfl | pos
  · exact_mod_cast nearestSize_zero
  have small : (n : ℚ) < 2 ^ (53 : ℤ) := by exact_mod_cast short
  have value : (n * 2 ^ (0 : ℤ) : ℚ) = n := by rw [zpow_zero, mul_one]
  exact nearestSize_eq_self value (exponentOf_le (Nat.cast_pos.mpr pos) (by decide) small)

/-- **Rounding a size keeps the order.** -/
theorem nearestSize_mono {q q' : ℚ} (nonneg : 0 ≤ q) (le : q ≤ q') :
    nearestSize q ≤ nearestSize q' := by
  rcases nonneg.eq_or_lt with rfl | pos
  · rw [nearestSize_zero]
    exact nearestSize_nonneg q'
  have unit : (0 : ℚ) < 2 ^ exponentOf q := zpow_pos two_pos _
  have unit' : (0 : ℚ) < 2 ^ exponentOf q' := zpow_pos two_pos _
  unfold nearestSize
  rcases (exponentOf_mono pos le).eq_or_lt with same | less
  · rw [← same]
    have scaled : q / 2 ^ exponentOf q ≤ q' / 2 ^ exponentOf q :=
      div_le_div_of_nonneg_right le unit.le
    have mantissas := roundedMantissa_mono (div_pos pos unit).le scaled
    exact mul_le_mul_of_nonneg_right (by exact_mod_cast mantissas) unit.le
  · -- the power of two between them is `2 ^ 53` units of the one and at most `2 ^ 52` of the other
    have least : -1074 ≤ exponentOf q := by
      rw [exponentOf_eq]
      exact le_max_right _ _
    have short : (leftOver (q / 2 ^ exponentOf q)).roundedMantissa ≤ 2 ^ 53 := by
      have below : q / 2 ^ exponentOf q ≤ (2 ^ 53 : ℕ) := by
        exact_mod_cast (div_zpow_exponentOf pos).1.le
      have := roundedMantissa_mono (div_pos pos unit).le below
      rwa [roundedMantissa_natCast] at this
    have long : 2 ^ 52 ≤ (leftOver (q' / 2 ^ exponentOf q')).roundedMantissa :=
      le_roundedMantissa (by
        exact_mod_cast (div_zpow_exponentOf (pos.trans_le le)).2.resolve_right (by omega))
    calc ((leftOver (q / 2 ^ exponentOf q)).roundedMantissa * 2 ^ exponentOf q : ℚ)
        ≤ 2 ^ 53 * 2 ^ exponentOf q :=
          mul_le_mul_of_nonneg_right (by exact_mod_cast short) unit.le
      _ = 2 ^ 52 * 2 ^ (exponentOf q + 1) := by rw [zpow_add_one₀ two_ne_zero]; ring
      _ ≤ (leftOver (q' / 2 ^ exponentOf q')).roundedMantissa * 2 ^ exponentOf q' :=
          mul_le_mul (by exact_mod_cast long) (zpow_le_zpow_right₀ one_le_two less)
            (zpow_pos two_pos _).le (Nat.cast_nonneg _)

/-! ## 2. Signed values -/

/-- The value that a rational is rounded to, its size rounded and its sign kept. -/
def nearestValue (q : ℚ) : ℚ := if q < 0 then -nearestSize (-q) else nearestSize q

theorem nearestValue_of_nonneg {q : ℚ} (nonneg : 0 ≤ q) : nearestValue q = nearestSize q :=
  if_neg (not_lt.mpr nonneg)

theorem nearestValue_neg (q : ℚ) : nearestValue (-q) = -nearestValue q := by
  unfold nearestValue
  rcases lt_trichotomy q 0 with negative | rfl | positive
  · rw [if_neg (by linarith), if_pos negative, neg_neg]
  · simp [nearestSize_zero]
  · rw [if_pos (by linarith), if_neg (by linarith), neg_neg]

theorem abs_nearestValue (q : ℚ) : |nearestValue q| = nearestSize |q| := by
  unfold nearestValue
  split
  · rename_i negative
    rw [abs_neg, abs_of_nonneg (nearestSize_nonneg _), abs_of_neg negative]
  · rename_i nonneg
    rw [abs_of_nonneg (nearestSize_nonneg _), abs_of_nonneg (not_lt.mp nonneg)]

/-- **Rounding keeps the order.** -/
theorem nearestValue_mono : Monotone nearestValue := by
  intro q q' le
  unfold nearestValue
  split
  · split
    · rename_i negative
      exact neg_le_neg (nearestSize_mono (by linarith) (by linarith))
    · exact (neg_nonpos.mpr (nearestSize_nonneg _)).trans (nearestSize_nonneg _)
  · rename_i nonneg
    rw [if_neg (by linarith)]
    exact nearestSize_mono (not_lt.mp nonneg) le

/-! ## 3. Halves away from zero -/

/-- Is the integer nearest to the rational, a half going away from zero? -/
structure RoundsAway (q : ℚ) (n : ℤ) : Prop where
  near : |n - q| ≤ 1 / 2
  away : |n - q| = 1 / 2 → |q| < |(n : ℚ)|

/-- The integer nearest to a rational, a half going away from zero. -/
def roundAway (q : ℚ) : ℤ := if q < 0 then -⌊-q + 1 / 2⌋ else ⌊q + 1 / 2⌋

theorem roundAway_of_nonneg {q : ℚ} (nonneg : 0 ≤ q) : roundAway q = ⌊q + 1 / 2⌋ :=
  if_neg (not_lt.mpr nonneg)

theorem roundAway_neg (q : ℚ) : roundAway (-q) = -roundAway q := by
  unfold roundAway
  rcases lt_trichotomy q 0 with negative | rfl | positive
  · rw [if_neg (by linarith), if_pos negative, neg_neg]
  · have none : ⌊(0 : ℚ) + 1 / 2⌋ = 0 := by rw [Int.floor_eq_zero_iff]; norm_num
    simp only [neg_zero, lt_irrefl, if_false, none]
  · rw [if_pos (by linarith), if_neg (by linarith), neg_neg]

theorem roundAway_nonneg {q : ℚ} (nonneg : 0 ≤ q) : 0 ≤ roundAway q := by
  rw [roundAway_of_nonneg nonneg]
  exact Int.floor_nonneg.mpr (by linarith)

theorem RoundsAway.neg {q : ℚ} {n : ℤ} (h : RoundsAway q n) : RoundsAway (-q) (-n) := by
  have size : |((-n : ℤ) : ℚ) - -q| = |n - q| := by
    rw [← abs_neg]
    congr 1
    push_cast
    ring
  have sizeN : |((-n : ℤ) : ℚ)| = |(n : ℚ)| := by rw [Int.cast_neg, abs_neg]
  exact ⟨size ▸ h.near, fun half => by
    rw [abs_neg, sizeN]
    exact h.away (size ▸ half)⟩

/-- **There is one such integer.** -/
theorem roundsAway_iff {q : ℚ} {n : ℤ} : RoundsAway q n ↔ n = roundAway q := by
  have unsigned {q : ℚ} {n : ℤ} (nonneg : 0 ≤ q) : RoundsAway q n ↔ n = roundAway q := by
    rw [roundAway_of_nonneg nonneg, eq_comm, Int.floor_eq_iff]
    constructor
    · intro h
      obtain ⟨below, above⟩ := abs_le.mp h.near
      refine ⟨by linarith, lt_of_le_of_ne (by linarith) fun half => ?_⟩
      -- a half below the rational would not be farther from zero
      have size : |(n : ℚ) - q| = 1 / 2 := by
        rw [show (n : ℚ) - q = -(1 / 2) by linarith]
        norm_num
      have away := h.away size
      rw [abs_of_nonneg nonneg] at away
      rcases abs_cases (n : ℚ) with ⟨same, -⟩ | ⟨same, negative⟩
      · linarith
      · have negative : n < 0 := by exact_mod_cast negative
        have : (n : ℚ) ≤ -1 := by exact_mod_cast (by omega : n ≤ -1)
        linarith
    · rintro ⟨lower, upper⟩
      refine ⟨abs_le.mpr ⟨by linarith, by linarith⟩, fun half => ?_⟩
      rw [abs_of_nonneg nonneg]
      rcases abs_cases ((n : ℚ) - q) with ⟨same, -⟩ | ⟨same, -⟩
      · exact lt_of_lt_of_le (by linarith) (le_abs_self _)
      · linarith
  rcases le_or_gt 0 q with nonneg | negative
  · exact unsigned nonneg
  · constructor
    · intro h
      have := (unsigned (by linarith)).mp h.neg
      rw [roundAway_neg] at this
      omega
    · rintro rfl
      have := ((unsigned (q := -q) (by linarith)).mpr rfl).neg
      rwa [neg_neg, roundAway_neg, neg_neg] at this

theorem roundsAway_roundAway (q : ℚ) : RoundsAway q (roundAway q) := roundsAway_iff.mpr rfl

/-- Rounding to integers keeps the order. -/
theorem roundAway_mono : Monotone roundAway := by
  intro q q' le
  rcases lt_or_ge q 0 with negative | nonneg
  · rcases lt_or_ge q' 0 with negative' | nonneg'
    · unfold roundAway
      rw [if_pos negative, if_pos negative']
      exact neg_le_neg (Int.floor_mono (by linarith))
    · have below : roundAway q ≤ 0 := by
        have := roundAway_nonneg (q := -q) (by linarith)
        rw [roundAway_neg] at this
        omega
      exact below.trans (roundAway_nonneg nonneg')
  · rw [roundAway_of_nonneg nonneg, roundAway_of_nonneg (nonneg.trans le)]
    exact Int.floor_mono (by linarith)

end Haulage
