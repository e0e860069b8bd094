/-
# What rounding to cents does

An amount that an account can hold becomes, when it is rounded, the float nearest to a whole number of
cents.  Three roundings lie between the amount and that number: the decimal that the float is written
with, the cents of the decimal, and the float that the cents are read as.  The second may move the
amount by half a cent; below `10^12` the other two stay within a hundredth of a cent together
(`exists_cents`), so the number of cents can be read off the float again (`centsIn_eq`).
-/
import Haulage.Proofs.Number.Monotone
import Haulage.Proofs.Number.Written
import Haulage.Money

namespace Haulage

open Float.Model (UnpackedFloat)

/-! ## 1. The cents of a decimal -/

theorem roundedQuotient_eq (n places : ℕ) :
    (roundedQuotient n places : ℤ) = ⌊(n / 10 ^ places + 1 / 2 : ℚ)⌋ := by
  have sum : (n / 10 ^ places + 1 / 2 : ℚ) =
      ((2 * n + 10 ^ places : ℕ) : ℤ) / (2 * 10 ^ places : ℕ) := by
    push_cast
    field_simp
  rw [sum, Rat.floor_intCast_div_natCast, roundedQuotient, Nat.pow_eq, Int.natCast_div]

theorem hundredfold_toRat (d : Scientific) :
    100 * d.toRat = d.coefficient * 10 ^ (d.exponent + 2) := by
  rw [Scientific.toRat, zpow_add₀ (by norm_num)]
  norm_num
  ring

/-- A decimal with two places at most is whole cents. -/
theorem centsOf_of_exponent {d : Scientific} (places : -2 ≤ d.exponent) :
    (centsOf d : ℚ) = 100 * d.toRat := by
  have whole : 0 ≤ d.exponent + 2 := by omega
  have power : (10 : ℚ) ^ (d.exponent + 2) = 10 ^ (d.exponent + 2).toNat := by
    rw [← zpow_natCast, Int.toNat_of_nonneg whole]
  rw [hundredfold_toRat, power, centsOf, if_pos whole]
  push_cast
  norm_num

/-- **The cents of a decimal** are its hundredfold, rounded with halves away from zero. -/
theorem centsOf_eq (d : Scientific) : (centsOf d : ℤ) = roundAway (100 * d.toRat) := by
  have nonneg : 0 ≤ 100 * d.toRat := mul_nonneg (by norm_num) d.toRat_nonneg
  rw [roundAway_of_nonneg nonneg]
  rcases le_or_gt (-2) d.exponent with places | more
  · rw [← centsOf_of_exponent places, eq_comm, Int.floor_eq_iff]
    push_cast
    constructor <;> linarith
  · have power : (10 : ℚ) ^ (d.exponent + 2) = (10 ^ (-(d.exponent + 2)).toNat)⁻¹ := by
      rw [← zpow_natCast, Int.toNat_of_nonneg (by omega), ← zpow_neg, neg_neg]
    rw [hundredfold_toRat, power, ← div_eq_mul_inv, centsOf, if_neg (by omega)]
    exact roundedQuotient_eq _ _

/-- So they are off by half a cent at most. -/
theorem abs_centsOf_sub_le (d : Scientific) : |(centsOf d : ℚ) - 100 * d.toRat| ≤ 1 / 2 := by
  exact_mod_cast (roundsAway_iff.mpr (centsOf_eq d)).near

/-! ## 2. The decimal of a float -/

theorem isFinite_abs {x : Float} (finite : x.isFinite = true) : x.abs.isFinite = true := by
  rcases unpack_of_isFinite finite with ⟨s, zero⟩ | ⟨s, m, e, pos, parts⟩
  · exact isFinite_of_unpack_zero (unpack_abs_zero zero)
  · exact isFinite_of_unpack_finite (unpack_abs parts)

/-- The size of a float is near the decimal that the float is written with. -/
theorem near_shortest {x : Float} (finite : x.isFinite = true) {k : ℤ} (low : -1021 ≤ k)
    (high : k ≤ 1023) (small : (shortest x).toRat < 2 ^ k) :
    Near x.abs (shortest x).toRat (2 ^ (k - 54)) := by
  rcases unpack_of_isFinite finite with ⟨s, zero⟩ | ⟨s, m, e, pos, parts⟩
  · refine ⟨isFinite_abs finite, ?_⟩
    rw [toRat_shortest_of_zero zero, exactValue_abs finite, exactValue_of_zero zero]
    simpa using (zpow_pos two_pos (k - 54)).le
  · obtain ⟨reads, coefficient, exponent⟩ := toFloat_shortest parts
    exact reads ▸ near_toFloat coefficient (by omega) low high small

/-! ## 3. Rounded amounts -/

/-- The cents of an amount of money: the whole number nearest to its hundredfold. -/
def centsIn (x : Float) : ℤ := round (100 * exactValue x)

theorem centsIn_eq {x : Float} {c : ℤ} (near : |100 * exactValue x - c| ≤ 1 / 100) :
    centsIn x = c := by
  obtain ⟨below, above⟩ := abs_le.mp near
  rw [centsIn, round_eq, Int.floor_eq_iff]
  constructor <;> linarith

/-- An account can hold the amount: it is finite, and its cents have no more digits than fit. -/
structure IsHeld (x : Float) : Prop where
  finite : x.isFinite = true
  digits : centsOf (shortest x) < 10 ^ mostCentDigits

/-- The amount is whole cents: rounding leaves it as it is. -/
def IsWhole (x : Float) : Prop := (roundMoney x == x) = true

/-- Cents are read as a float that is near them. -/
theorem near_cents {c : ℕ} (pos : 0 < c) {k : ℤ} (low : -1021 ≤ k) (high : k ≤ 1023)
    (small : (c / 100 : ℚ) < 2 ^ k) :
    Near (Scientific.mk c (-2)).toFloat (c / 100) (2 ^ (k - 54)) := by
  rw [← toRat_cents] at small ⊢
  exact near_toFloat pos (show (-2 : ℤ).natAbs ≤ 2048 by decide) low high small

/-- Cents whose float is below `10^12` are below `2^40`, with room for half a cent. -/
theorem cents_lt {c : ℕ} (pos : 0 < c) (digits : c < 10 ^ mostCentDigits)
    (below : |exactValue (Scientific.mk c (-2)).toFloat| < 10 ^ 12) :
    (c / 100 + 1 : ℚ) < 2 ^ (40 : ℤ) := by
  have digits : (c : ℚ) < 10 ^ 28 := by exact_mod_cast digits
  have near := (near_cents pos (k := 87) (by norm_num) (by norm_num) (by norm_num; linarith)).error
  norm_num at near ⊢
  linarith [abs_le.mp near, (abs_lt.mp below).2]

/-- The cents of the size of an amount are off by half a cent at most. -/
theorem abs_cents_shortest_sub_le {x : Float} (finite : x.isFinite = true)
    (small : (centsOf (shortest x) / 100 + 1 : ℚ) < 2 ^ (40 : ℤ)) :
    |(centsOf (shortest x) : ℚ) - 100 * exactValue x.abs| ≤ 1 / 2 + 1 / 100 := by
  have rounded := abs_le.mp (abs_centsOf_sub_le (shortest x))
  have near := (near_shortest finite (k := 40) (by norm_num) (by norm_num) (by linarith)).error
  norm_num at near
  have near := abs_le.mp near
  rw [abs_le]
  constructor <;> linarith

/-- An amount that is held and not nothing is rounded to the float of its cents. -/
theorem roundMoney_of_held {x : Float} (held : IsHeld x) (pos : 0 < centsOf (shortest x)) :
    roundMoney x = if x < 0 then -(Scientific.mk (centsOf (shortest x)) (-2)).toFloat
      else (Scientific.mk (centsOf (shortest x)) (-2)).toFloat := by
  have fits : ¬(centsOf (shortest x) = 0 ∨ Nat.pow 10 mostCentDigits ≤ centsOf (shortest x)) :=
    not_or.mpr ⟨pos.ne', not_le.mpr held.digits⟩
  rw [roundMoney, if_pos held.finite]
  exact if_neg fits

theorem roundMoney_of_no_cents {x : Float} (none : centsOf (shortest x) = 0) :
    roundMoney x = 0 := by
  simp [roundMoney, none]

theorem isFinite_roundMoney {x : Float} (held : IsHeld x) : (roundMoney x).isFinite = true := by
  rcases Nat.eq_zero_or_pos (centsOf (shortest x)) with none | pos
  · rw [roundMoney_of_no_cents none]
    rfl
  · have digits : (centsOf (shortest x) : ℚ) < 10 ^ 28 := by exact_mod_cast held.digits
    have near := near_cents pos (k := 87) (by norm_num) (by norm_num) (by norm_num; linarith)
    rw [roundMoney_of_held held pos]
    split
    · rw [isFinite_neg]
      exact near.finite
    · exact near.finite

/-- **A rounded amount is whole cents**, and the amount is off them by half a cent. -/
theorem exists_cents {x : Float} (held : IsHeld x) (below : |exactValue (roundMoney x)| < 10 ^ 12) :
    ∃ c : ℤ, |100 * exactValue (roundMoney x) - c| ≤ 1 / 100 ∧
      |100 * exactValue x - c| ≤ 1 / 2 + 1 / 100 := by
  have size := exactValue_abs held.finite
  rcases Nat.eq_zero_or_pos (centsOf (shortest x)) with none | pos
  · have off := abs_cents_shortest_sub_le held.finite (by rw [none]; norm_num)
    refine ⟨0, by simp [roundMoney_of_no_cents none, exactValue_zero], ?_⟩
    rw [none, size] at off
    simpa [abs_mul] using off
  · have rounded := roundMoney_of_held held pos
    have order := lt_zero_iff_exactValue held.finite
    have below : |exactValue (Scientific.mk (centsOf (shortest x)) (-2)).toFloat| < 10 ^ 12 := by
      rw [rounded] at below
      split at below <;> simpa using below
    have small := cents_lt pos held.digits below
    have off := abs_cents_shortest_sub_le held.finite small
    have near := (near_cents pos (k := 40) (by norm_num) (by norm_num) (by linarith)).error
    norm_num at near
    have near := abs_le.mp near
    have off := abs_le.mp off
    rw [size] at off
    rw [rounded]
    split
    · rename_i negative
      rw [abs_of_neg (order.mp negative)] at off
      refine ⟨-centsOf (shortest x), ?_, ?_⟩ <;> push_cast [exactValue_neg] <;> rw [abs_le] <;>
        constructor <;> linarith
    · rename_i nonnegative
      rw [abs_of_nonneg (not_lt.mp (mt order.mpr nonnegative))] at off
      refine ⟨centsOf (shortest x), ?_, ?_⟩ <;> push_cast <;> rw [abs_le] <;>
        constructor <;> linarith

/-- The cents of a rounded amount. -/
theorem abs_centsIn_sub_le {x : Float} (held : IsHeld x)
    (below : |exactValue (roundMoney x)| < 10 ^ 12) :
    |(centsIn (roundMoney x) : ℚ) - 100 * exactValue x| ≤ 1 / 2 + 1 / 100 ∧
      (IsWhole x → |(centsIn (roundMoney x) : ℚ) - 100 * exactValue x| ≤ 1 / 100) := by
  obtain ⟨c, near, off⟩ := exists_cents held below
  rw [centsIn_eq near, abs_sub_comm]
  refine ⟨off, fun whole => ?_⟩
  rwa [(beq_iff (isFinite_roundMoney held) held.finite).mp whole] at near

end Haulage
