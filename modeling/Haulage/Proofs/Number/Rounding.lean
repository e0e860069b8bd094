/-
# How far rounding goes

Rounding moves a value by half a unit in its last place at most, and below `2^k` that unit is at most
`2^(k-53)`.  `Near x q ε` says that the float `x` is finite and lies within `ε` of the rational `q`.
Decimals that are read and sums and differences of floats are rounded once, so each is near its
exact value (`near_toFloat`, `near_add`, `near_sub`); how small the values must be for that is said
by a power of two.  The integer part of a float is not rounded at all, and so it is never beyond the
floats (`isFinite_ofInt_of_trunc?`).
-/
import Haulage.Proofs.Number.Nearest
import Haulage.Proofs.Number.Order

namespace Haulage

open Float.Model (UnpackedFloat Format totalExponent)
open Float.Model.UnpackedFloat (ExtendedMantissa Accuracy shiftToTargetExponent)

/-! ## 1. Half a unit in the last place -/

/-- Rounding a mantissa moves it by half a unit at most. -/
theorem abs_roundedMantissa_sub_le {r : ℚ} (nonneg : 0 ≤ r) :
    |((leftOver r).roundedMantissa : ℚ) - r| ≤ 1 / 2 := by
  have lower : (⌊2 * r⌋₊ : ℚ) ≤ 2 * r := Nat.floor_le (by linarith)
  have upper : 2 * r < ⌊2 * r⌋₊ + 1 := Nat.lt_floor_add_one _
  have half : ⌊r⌋₊ = ⌊2 * r⌋₊ / 2 := by
    rw [← Nat.floor_div_natCast]
    congr 1
    push_cast
    ring
  simp only [leftOver, half]
  generalize ⌊2 * r⌋₊ = t at lower upper ⊢
  obtain ⟨n, rfl | rfl⟩ := Nat.even_or_odd' t <;> push_cast at lower upper
  · have even : (2 * n) % 2 = 0 := by omega
    have whole : 2 * n / 2 = n := by omega
    by_cases exact' : ((2 * n : ℕ) : ℚ) = 2 * r <;>
      simp only [even, whole, exact', ExtendedMantissa.roundedMantissa, ExtendedMantissa.accuracy,
        Accuracy.roundToNearestEven, Nat.reduceBEq, ne_eq, not_true_eq_false, not_false_eq_true,
        decide_true, decide_false] <;>
      rw [abs_le] <;> constructor <;> linarith
  · have odd : (2 * n + 1) % 2 = 1 := by omega
    have whole : (2 * n + 1) / 2 = n := by omega
    by_cases exact' : ((2 * n + 1 : ℕ) : ℚ) = 2 * r
    · have tie : r = n + 1 / 2 := by
        push_cast at exact'
        linarith
      have parity : ((n % 2 : ℕ) : ℚ) = 0 ∨ ((n % 2 : ℕ) : ℚ) = 1 := by
        exact_mod_cast Nat.mod_two_eq_zero_or_one n
      simp only [odd, whole, exact', ExtendedMantissa.roundedMantissa, ExtendedMantissa.accuracy,
        Accuracy.roundToNearestEven, BEq.rfl, ne_eq, not_true_eq_false, decide_false, tie]
      push_cast at parity ⊢
      rw [abs_le]
      constructor <;> rcases parity with parity | parity <;> rw [parity] <;> linarith
    · simp only [odd, whole, exact', ExtendedMantissa.roundedMantissa, ExtendedMantissa.accuracy,
        Accuracy.roundToNearestEven, BEq.rfl, ne_eq, not_false_eq_true, decide_true]
      push_cast
      rw [abs_le]
      constructor <;> linarith

theorem exponentOf_le {q : ℚ} (pos : 0 < q) {k : ℤ} (low : -1021 ≤ k) (small : q < 2 ^ k) :
    exponentOf q ≤ k - 53 := by
  have log : Int.log 2 q < k := (Int.lt_zpow_iff_log_lt (by decide) pos).mp (by simpa using small)
  rw [exponentOf_eq]
  omega

/-- What has digits behind the point is below `2^52`. -/
theorem Canonical.lt_of_neg {m : ℕ} {e : ℤ} (h : Canonical m e) (part : e < 0) :
    (m * 2 ^ e : ℚ) < 2 ^ 52 := by
  have short : (m : ℚ) < 2 ^ 53 := by exact_mod_cast h.short
  have unit : (2 ^ e : ℚ) ≤ 2 ^ (-1 : ℤ) := zpow_le_zpow_right₀ one_le_two (by omega)
  calc (m * 2 ^ e : ℚ) < 2 ^ 53 * 2 ^ e := mul_lt_mul_of_pos_right short (zpow_pos two_pos e)
    _ ≤ 2 ^ 53 * 2 ^ (-1 : ℤ) := mul_le_mul_of_nonneg_left unit (by norm_num)
    _ = 2 ^ 52 := by norm_num

/-- In units of its last place a value has 53 digits in front of the point, or fewer if the unit is
the least. -/
theorem div_zpow_exponentOf {q : ℚ} (pos : 0 < q) :
    q / 2 ^ exponentOf q < 2 ^ 53 ∧ (2 ^ 52 ≤ q / 2 ^ exponentOf q ∨ exponentOf q = -1074) := by
  have lower := Int.zpow_log_le_self (b := 2) one_lt_two pos
  have upper := Int.lt_zpow_succ_log_self (b := 2) one_lt_two q
  push_cast at lower upper
  have exponent := exponentOf_eq q
  constructor
  · rw [div_lt_iff₀ (zpow_pos two_pos _), ← zpow_natCast, ← zpow_add₀ two_ne_zero]
    exact upper.trans_le (zpow_le_zpow_right₀ one_le_two (by push_cast; omega))
  · rcases le_or_gt (Int.log 2 q - 52) (-1074) with least | full
    · exact .inr (by omega)
    · left
      rw [le_div_iff₀ (zpow_pos two_pos _), ← zpow_natCast, ← zpow_add₀ two_ne_zero]
      exact (zpow_le_zpow_right₀ one_le_two (by push_cast; omega)).trans lower

/-- The value that a size is rounded to: a whole number of units in its last place. -/
def nearestSize (q : ℚ) : ℚ := (leftOver (q / 2 ^ exponentOf q)).roundedMantissa * 2 ^ exponentOf q

/-- A mantissa that was rounded up has one digit too many at most, and then the carry makes a float
of it, unless the exponent is the greatest. -/
theorem exists_canonical {n : ℕ} {e : ℤ} (pos : 0 < n) (most : n ≤ 2 ^ 53) (least : -1074 ≤ e)
    (fits : e ≤ 970 ∨ e = 971 ∧ n < 2 ^ 53) (long : 2 ^ 52 ≤ n ∨ e = -1074) :
    ∃ m k, Canonical m k ∧ e ≤ k ∧ (m * 2 ^ k : ℚ) = n * 2 ^ e := by
  rcases most.lt_or_eq with less | rfl
  · exact ⟨n, e, ⟨pos, less, least, by omega, long⟩, le_rfl, rfl⟩
  · refine ⟨2 ^ 52, e + 1, ⟨by norm_num, by norm_num, by omega, by omega, .inl le_rfl⟩, by omega, ?_⟩
    rw [zpow_add_one₀ two_ne_zero]
    push_cast
    ring

/-- The last shift ends at the float of the value. -/
theorem shiftToTargetExponent_canonical {n m : ℕ} {e k : ℤ} (h : Canonical m k) (le : e ≤ k)
    (whole : (m * 2 ^ k : ℚ) = n * 2 ^ e) :
    shiftToTargetExponent Format.binary64 n e .exact = (⟨m, false, false⟩, k) := by
  have unit : (0 : ℚ) < 2 ^ e := zpow_pos two_pos e
  have pos : (0 : ℚ) < n := by
    exact pos_of_mul_pos_left (whole ▸ size_pos h.pos k) unit.le
  have exponent : exponentOf (n * 2 ^ e) = k := whole ▸ exponentOf_canonical h
  have start : ExtendedMantissa.ofMantissaAndAccuracy n .exact = leftOver n :=
    (leftOver_natCast n).symm
  rw [shiftToTargetExponent_eq pos start (exponent.symm ▸ le), exponent, ← whole,
    mul_div_cancel_right₀ _ (zpow_ne_zero k two_ne_zero), leftOver_natCast]

theorem shiftToTargetExponent_zero (e : ℤ) :
    (shiftToTargetExponent Format.binary64 0 e .exact).1.mantissa = 0 := by
  have shifted (n : ℕ) : leftOver 0 >>> n = leftOver 0 := by
    rw [leftOver_shiftRight, zero_div]
  have zero : leftOver 0 = ⟨0, false, false⟩ := by exact_mod_cast leftOver_natCast 0
  rw [zero] at shifted
  simp only [shiftToTargetExponent, UnpackedFloat.shiftToExponent,
    ExtendedMantissa.ofMantissaAndAccuracy, shifted]

/-- Rounding moves a size by half a unit in its last place at most. -/
theorem abs_nearestSize_sub_le {q : ℚ} (nonneg : 0 ≤ q) :
    |nearestSize q - q| ≤ 2 ^ (exponentOf q - 1) := by
  have unit : (0 : ℚ) < 2 ^ exponentOf q := zpow_pos two_pos _
  have moved := abs_roundedMantissa_sub_le (div_nonneg nonneg unit.le)
  have value : q / 2 ^ exponentOf q * 2 ^ exponentOf q = q := div_mul_cancel₀ q unit.ne'
  have split : nearestSize q - q =
      ((leftOver (q / 2 ^ exponentOf q)).roundedMantissa - q / 2 ^ exponentOf q) *
        2 ^ exponentOf q := by rw [nearestSize, sub_mul, value]
  rw [split, abs_mul, abs_of_pos unit, zpow_sub_one₀ two_ne_zero, mul_comm _ (2 : ℚ)⁻¹, ← one_div]
  exact mul_le_mul_of_nonneg_right moved unit.le

/-- **What a size is rounded to** is a float of its nearest value, unless the mantissa has one digit
more than there is room for. -/
theorem exists_rounded {q : ℚ} (pos : 0 < q)
    (fits : exponentOf q ≤ 970 ∨
      exponentOf q = 971 ∧ (leftOver (q / 2 ^ exponentOf q)).roundedMantissa < 2 ^ 53)
    (s : UnpackedFloat.Sign) :
    nearestSize q = 0 ∧ rounded s q = .zero s ∨ ∃ m e, ∃ h : Canonical m e,
      rounded s q = .finite s m e h.pos ∧ (m * 2 ^ e : ℚ) = nearestSize q := by
  have unit : (0 : ℚ) < 2 ^ exponentOf q := zpow_pos two_pos _
  obtain ⟨short, full⟩ := div_zpow_exponentOf pos
  obtain ⟨below, above⟩ := abs_le.mp (abs_roundedMantissa_sub_le (div_pos pos unit).le)
  unfold nearestSize
  set n := (leftOver (q / 2 ^ exponentOf q)).roundedMantissa with hn
  rcases Nat.eq_zero_or_pos n with zero | positive
  · refine .inl ⟨by rw [zero, Nat.cast_zero, zero_mul], ?_⟩
    unfold rounded
    simp only [← hn, zero]
    rw [dif_pos (shiftToTargetExponent_zero _)]
  · have most : n ≤ 2 ^ 53 := by
      have less : (n : ℚ) < (2 ^ 53 + 1 : ℕ) := by push_cast; linarith
      have less : n < 2 ^ 53 + 1 := by exact_mod_cast less
      omega
    have long : 2 ^ 52 ≤ n ∨ exponentOf q = -1074 := full.imp_left fun full => by
      have less : ((2 ^ 52 : ℕ) : ℚ) < (n + 1 : ℕ) := by push_cast; linarith
      have less : 2 ^ 52 < n + 1 := by exact_mod_cast less
      omega
    have least : -1074 ≤ exponentOf q := by
      rw [exponentOf_eq]
      exact le_max_right _ _
    obtain ⟨m, k, canonical, le, whole⟩ := exists_canonical positive most least fits long
    refine .inr ⟨m, k, canonical, ?_, whole⟩
    unfold rounded
    simp only [← hn, shiftToTargetExponent_canonical canonical le whole]
    rw [dif_neg canonical.pos.ne']

/-! ## 2. Floats near a value -/

/-- The float is finite and lies within `ε` of the rational. -/
structure Near (x : Float) (q ε : ℚ) : Prop where
  finite : x.isFinite = true
  error : |exactValue x - q| ≤ ε

/-- **Below `2^k` a value is rounded by `2^(k-54)` at most.** -/
theorem near_rounded {q : ℚ} (pos : 0 < q) {k : ℤ} (low : -1021 ≤ k) (high : k ≤ 1023)
    (small : q < 2 ^ k) (s : UnpackedFloat.Sign) :
    Near (.ofModel (.pack (rounded s q))) (s.apply 1 * q) (2 ^ (k - 54)) := by
  have exponent := exponentOf_le pos low small
  have error : |nearestSize q - q| ≤ 2 ^ (k - 54) :=
    (abs_nearestSize_sub_le pos.le).trans (zpow_le_zpow_right₀ one_le_two (by omega))
  have sign : |((s.apply 1 : ℤ) : ℚ)| = 1 := by cases s <;> simp [UnpackedFloat.Sign.apply]
  rcases exists_rounded pos (.inl (by omega)) s with
    ⟨none, zero⟩ | ⟨m, e, canonical, finite, value⟩
  · have parts : (Float.ofModel (.pack (rounded s q))).toModel.unpack = .zero s := by
      rw [zero]
      cases s <;> rfl
    refine ⟨isFinite_of_unpack_zero parts, ?_⟩
    rw [none, zero_sub, abs_neg] at error
    rwa [exactValue_of_zero parts, zero_sub, abs_neg, abs_mul, sign, one_mul]
  · have parts : (Float.ofModel (.pack (rounded s q))).toModel.unpack =
        .finite s m e canonical.pos := by
      rw [finite]
      exact unpack_pack canonical
    have signed : ((s.apply m : ℤ) : ℚ) = s.apply 1 * m := by
      cases s <;> simp [UnpackedFloat.Sign.apply]
    refine ⟨isFinite_of_unpack_finite parts, ?_⟩
    rw [exactValue_of_finite parts, signed, mul_assoc, value, ← mul_sub, abs_mul, sign, one_mul]
    exact error

/-- A decimal is read as a float that is near its value. -/
theorem near_toFloat {d : Scientific} (pos : 0 < d.coefficient) (bound : d.exponent.natAbs ≤ 2048)
    {k : ℤ} (low : -1021 ≤ k) (high : k ≤ 1023) (small : d.toRat < 2 ^ k) :
    Near d.toFloat d.toRat (2 ^ (k - 54)) := by
  have positive := Scientific.toRat_pos pos
  rw [toFloat_eq_nearest pos bound]
  have near := near_rounded positive low high small .positive
  rwa [show ((UnpackedFloat.Sign.positive.apply 1 : ℤ) : ℚ) = 1 from rfl, one_mul] at near

/-! ## 3. Sums and differences -/

/-- A mantissa of any length is rounded as its value. -/
theorem round_eq_rounded {m : ℕ} (pos : 0 < m) (e : ℤ) (s : UnpackedFloat.Sign) :
    UnpackedFloat.round Format.binary64 s m e = rounded s (m * 2 ^ e) := by
  set target := Format.binary64.targetExponent (totalExponent m e) with htarget
  set shift := (e - target).toNat with hshift
  have positive : (0 : ℚ) < m := by exact_mod_cast pos
  have value : ((m <<< shift : ℕ) * 2 ^ (e - shift) : ℚ) = m * 2 ^ e := by
    rw [Nat.shiftLeft_eq, zpow_sub₀ two_ne_zero, zpow_natCast]
    push_cast
    have : (2 : ℚ) ^ shift ≠ 0 := pow_ne_zero shift two_ne_zero
    field_simp
  have exponent : exponentOf (m * 2 ^ e) = target := by
    rw [exponentOf, log_mul_zpow positive, Int.log_natCast, ← Nat.log2_eq_log_two, htarget,
      totalExponent]
    congr 1
    ring
  have shifted : (0 : ℚ) < (m <<< shift : ℕ) := by
    rw [Nat.shiftLeft_eq]
    push_cast
    positivity
  have le : e - shift ≤ exponentOf ((m <<< shift : ℕ) * 2 ^ (e - shift)) := by
    rw [value, exponent]
    omega
  rw [← value]
  exact roundWithAccuracy_eq shifted (leftOver_natCast _).symm le s

/-- What a signed mantissa of any length is made of is near its value. -/
theorem near_normalize (n e : ℤ) {k : ℤ} (low : -1021 ≤ k) (high : k ≤ 1023)
    (small : |(n * 2 ^ e : ℚ)| < 2 ^ k) :
    Near (.ofModel (.pack (UnpackedFloat.normalize Format.binary64 n e .positive))) (n * 2 ^ e)
      (2 ^ (k - 54)) := by
  have unit : (0 : ℚ) < 2 ^ e := zpow_pos two_pos e
  have size : |(n * 2 ^ e : ℚ)| = n.natAbs * 2 ^ e := by
    rw [abs_mul, abs_of_pos unit, Nat.cast_natAbs, Int.cast_abs]
  rw [size] at small
  unfold UnpackedFloat.normalize
  rcases lt_trichotomy n 0 with negative | rfl | positive
  · have mantissa : (-n).toNat = n.natAbs := by omega
    have pos : 0 < n.natAbs := by omega
    have value : (n * 2 ^ e : ℚ) = (UnpackedFloat.Sign.negative.apply 1 : ℤ) * (n.natAbs * 2 ^ e) := by
      rw [Nat.cast_natAbs, abs_of_neg negative]
      simp [UnpackedFloat.Sign.apply]
    rw [compare_lt_iff_lt.mpr negative, mantissa, round_eq_rounded pos, value]
    exact near_rounded (size_pos pos e) low high small .negative
  · have zero : (Float.ofModel (.pack (.zero .positive))).toModel.unpack = .zero .positive := rfl
    refine ⟨isFinite_of_unpack_zero zero, ?_⟩
    rw [show compare (0 : ℤ) 0 = .eq from rfl, exactValue_of_zero zero]
    simp only [Int.cast_zero, zero_mul, sub_zero, abs_zero]
    exact (zpow_pos two_pos _).le
  · have mantissa : n.toNat = n.natAbs := by omega
    have pos : 0 < n.natAbs := by omega
    have value : (n * 2 ^ e : ℚ) = (UnpackedFloat.Sign.positive.apply 1 : ℤ) * (n.natAbs * 2 ^ e) := by
      rw [Nat.cast_natAbs, abs_of_pos positive]
      simp [UnpackedFloat.Sign.apply]
    rw [compare_gt_iff_gt.mpr positive, mantissa, round_eq_rounded pos, value]
    exact near_rounded (size_pos pos e) low high small .positive

/-- A common exponent leaves the values as they are. -/
theorem decreaseExponent_value (m : ℕ) {e target : ℤ} (le : target ≤ e) (s : UnpackedFloat.Sign) :
    (s.apply (UnpackedFloat.decreaseExponent m e target).1 * 2 ^ target : ℚ) =
      s.apply m * 2 ^ e := by
  have shift : (2 : ℚ) ^ (e - target).toNat * 2 ^ target = 2 ^ e := by
    rw [← zpow_natCast, Int.toNat_of_nonneg (by omega), ← zpow_add₀ two_ne_zero, sub_add_cancel]
  have value : (((UnpackedFloat.decreaseExponent m e target).1 : ℕ) * 2 ^ target : ℚ) =
      m * 2 ^ e := by
    simp only [UnpackedFloat.decreaseExponent, Nat.shiftLeft_eq]
    push_cast
    rw [mul_assoc, shift]
  cases s <;> simp [UnpackedFloat.Sign.apply, value]

/-- A float is made of its own signed mantissa. -/
theorem normalize_canonical {m : ℕ} {e : ℤ} (h : Canonical m e) (s : UnpackedFloat.Sign) :
    UnpackedFloat.normalize Format.binary64 (s.apply m) e .positive = .finite s m e h.pos := by
  have pos : (0 : ℤ) < m := by exact_mod_cast h.pos
  unfold UnpackedFloat.normalize
  cases s with
  | positive =>
    rw [show UnpackedFloat.Sign.positive.apply m = m from rfl, compare_gt_iff_gt.mpr pos]
    exact (round_eq_rounded h.pos e .positive).trans (rounded_canonical h .positive)
  | negative =>
    rw [show UnpackedFloat.Sign.negative.apply m = -m from rfl, compare_lt_iff_lt.mpr (by omega)]
    dsimp only
    rw [neg_neg]
    exact (round_eq_rounded h.pos e .negative).trans (rounded_canonical h .negative)

/-- A sum of floats is zero, or it is made of a signed mantissa of the exact sum. -/
theorem exists_add {x y : Float} (hx : x.isFinite = true) (hy : y.isFinite = true) :
    (exactValue x + exactValue y = 0 ∧ ∃ s, (x + y).toModel.unpack = .zero s) ∨
      ∃ n e, x + y = .ofModel (.pack (UnpackedFloat.normalize Format.binary64 n e .positive)) ∧
        (n * 2 ^ e : ℚ) = exactValue x + exactValue y := by
  have sum : x + y = .ofModel (.pack (UnpackedFloat.add Format.binary64 x.toModel.unpack
      y.toModel.unpack)) := rfl
  rcases unpack_of_isFinite hx with ⟨s, partsX⟩ | ⟨s, m, e, hm, partsX⟩ <;>
    rcases unpack_of_isFinite hy with ⟨t, partsY⟩ | ⟨t, n, j, hn, partsY⟩
  · refine .inl ⟨by rw [exactValue_of_zero partsX, exactValue_of_zero partsY, add_zero], ?_⟩
    rw [sum, partsX, partsY]
    cases s <;> cases t <;> exact ⟨_, rfl⟩
  · refine .inr ⟨t.apply n, j, ?_, ?_⟩
    · rw [normalize_canonical (canonical_of_unpack partsY), sum, partsX, partsY]
      rfl
    · rw [exactValue_of_zero partsX, exactValue_of_finite partsY, zero_add]
  · refine .inr ⟨s.apply m, e, ?_, ?_⟩
    · rw [normalize_canonical (canonical_of_unpack partsX), sum, partsX, partsY]
      rfl
    · rw [exactValue_of_finite partsX, exactValue_of_zero partsY, add_zero]
  · refine .inr ⟨s.apply (UnpackedFloat.decreaseExponent m e (min e j)).1 +
      t.apply (UnpackedFloat.decreaseExponent n j (min e j)).1, min e j, ?_, ?_⟩
    · rw [sum, partsX, partsY, UnpackedFloat.add]
    · rw [exactValue_of_finite partsX, exactValue_of_finite partsY, Int.cast_add, add_mul,
        decreaseExponent_value m (min_le_left e j), decreaseExponent_value n (min_le_right e j)]

/-- **A sum of floats is near the exact sum.** -/
theorem near_add {x y : Float} (hx : x.isFinite = true) (hy : y.isFinite = true) {k : ℤ}
    (low : -1021 ≤ k) (high : k ≤ 1023) (small : |exactValue x + exactValue y| < 2 ^ k) :
    Near (x + y) (exactValue x + exactValue y) (2 ^ (k - 54)) := by
  rcases exists_add hx hy with ⟨none, s, zero⟩ | ⟨n, e, sum, value⟩
  · refine ⟨isFinite_of_unpack_zero zero, ?_⟩
    rw [exactValue_of_zero zero, none]
    simpa using (zpow_pos two_pos (k - 54)).le
  · rw [sum, ← value]
    rw [← value] at small
    exact near_normalize _ _ low high small

/-- A positive sum of floats is rounded once. -/
theorem add_eq_nearest {x y : Float} (hx : x.isFinite = true) (hy : y.isFinite = true)
    (pos : 0 < exactValue x + exactValue y) : x + y = nearest (exactValue x + exactValue y) := by
  rcases exists_add hx hy with ⟨none, -⟩ | ⟨n, e, sum, value⟩
  · exact absurd none pos.ne'
  · have positive : 0 < n := by
      rw [← value] at pos
      exact_mod_cast pos_of_mul_pos_left pos (zpow_pos two_pos e).le
    obtain ⟨k, rfl⟩ := Int.eq_ofNat_of_zero_le positive.le
    rw [sum, nearest, ← value, UnpackedFloat.normalize, compare_gt_iff_gt.mpr positive]
    exact congrArg (fun u => Float.ofModel (.pack u))
      (round_eq_rounded (by omega) e .positive)

/-- The negative of a float, taken apart. -/
theorem unpack_neg (x : Float) : (-x).toModel.unpack = x.toModel.unpack.neg := by
  have negated : (-x).toModel = .pack x.toModel.unpack.neg := rfl
  rw [negated]
  match parts : x.toModel.unpack with
  | .notANumber => rfl
  | .infinity s => cases s <;> rfl
  | .zero s => cases s <;> rfl
  | .finite s m e pos => exact unpack_pack (canonical_of_unpack parts)

@[simp] theorem isFinite_neg (x : Float) : (-x).isFinite = x.isFinite := by
  change (-x).toModel.unpack.isFinite = x.toModel.unpack.isFinite
  rw [unpack_neg]
  cases x.toModel.unpack <;> rfl

@[simp] theorem isNaN_neg (x : Float) : (-x).isNaN = x.isNaN := by
  change (-x).toModel.unpack.isNaN = x.toModel.unpack.isNaN
  rw [unpack_neg]
  cases x.toModel.unpack <;> rfl

@[simp] theorem exactValue_neg (x : Float) : exactValue (-x) = -exactValue x := by
  unfold exactValue
  rw [unpack_neg]
  match x.toModel.unpack with
  | .notANumber | .infinity _ | .zero _ => exact neg_zero.symm
  | .finite s m e _ => cases s <;> simp [UnpackedFloat.neg, UnpackedFloat.Sign.apply]

/-- Subtracting is adding the negative. -/
theorem sub_eq_add_neg_float (x y : Float) : x - y = x + -y := by
  have difference : x - y = .ofModel (.pack (UnpackedFloat.sub Format.binary64 x.toModel.unpack
      y.toModel.unpack)) := rfl
  have sum : x + -y = .ofModel (.pack (UnpackedFloat.add Format.binary64 x.toModel.unpack
      (-y).toModel.unpack)) := rfl
  rw [difference, sum, unpack_neg]
  congr 2
  match x.toModel.unpack, y.toModel.unpack with
  | .notANumber, v => cases v <;> rfl
  | .infinity s, v => cases v <;> rfl
  | .zero s, v => cases v <;> rfl
  | .finite s m e _, .notANumber | .finite s m e _, .infinity _ | .finite s m e _, .zero _ => rfl
  | .finite s m e _, .finite t n j _ =>
    cases t <;>
      simp [UnpackedFloat.sub, UnpackedFloat.add, UnpackedFloat.neg, UnpackedFloat.Sign.apply,
        Int.sub_eq_add_neg]

/-- Taking zero away leaves a float as it is, the sign of a zero too. -/
theorem sub_zero_float (x : Float) : x - 0 = x := by
  have difference : x - 0 = .ofModel (.pack (UnpackedFloat.sub Format.binary64 x.toModel.unpack
      (.zero .positive))) := rfl
  have same : UnpackedFloat.sub Format.binary64 x.toModel.unpack (.zero .positive) =
      x.toModel.unpack := by
    match x.toModel.unpack with
    | .notANumber | .infinity _ | .finite _ _ _ _ => rfl
    | .zero s => cases s <;> rfl
  rw [difference, same, pack_unpack]

/-- **A difference of floats is near the exact difference.** -/
theorem near_sub {x y : Float} (hx : x.isFinite = true) (hy : y.isFinite = true) {k : ℤ}
    (low : -1021 ≤ k) (high : k ≤ 1023) (small : |exactValue x - exactValue y| < 2 ^ k) :
    Near (x - y) (exactValue x - exactValue y) (2 ^ (k - 54)) := by
  rw [sub_eq_add_neg] at small ⊢
  rw [sub_eq_add_neg_float, ← exactValue_neg]
  rw [← exactValue_neg] at small
  exact near_add hx ((isFinite_neg y).trans hy) low high small

/-! ## 4. Integer parts -/

/-- A natural is turned into the float nearest to it. -/
theorem ofNat_eq_nearest {n : ℕ} (pos : 0 < n) : Float.ofNat n = nearest n := by
  have read : Float.ofNat n = nearest (n * 10 ^ (0 : ℤ)) :=
    toFloat_eq_nearest (d := ⟨n, 0⟩) pos (Nat.zero_le _)
  rwa [zpow_zero, mul_one] at read

/-- The integer part of what a float comes apart into is no number beyond the floats. -/
theorem isFinite_ofNat_of_canonical {m : ℕ} {e : ℤ} (h : Canonical m e) {n : ℕ}
    (part : scaledFloor m e = n) : (Float.ofNat n).isFinite = true := by
  rcases Nat.eq_zero_or_pos n with rfl | pos
  · rfl
  rw [ofNat_eq_nearest pos]
  unfold scaledFloor at part
  split at part
  · -- there is nothing behind the point
    rename_i nonneg
    obtain ⟨k, rfl⟩ := Int.eq_ofNat_of_zero_le nonneg
    have part : m * 2 ^ k = n := by exact_mod_cast part
    have value : (n : ℚ) = m * 2 ^ (k : ℤ) := by rw [zpow_natCast]; exact_mod_cast part.symm
    rw [nearest, value, rounded_canonical h]
    exact isFinite_of_unpack_finite (unpack_pack h)
  · have part : m / Nat.pow 2 (-e).toNat = n := by exact_mod_cast part
    have short : n < 2 ^ 53 := part ▸ (Nat.div_le_self m _).trans_lt h.short
    have small : (n : ℚ) < 2 ^ (53 : ℤ) := by exact_mod_cast short
    exact (near_rounded (Nat.cast_pos.mpr pos) (by decide) (by decide) small .positive).finite

theorem isFinite_ofInt_of_natAbs {n : ℤ} (h : (Float.ofNat n.natAbs).isFinite = true) :
    (Float.ofInt n).isFinite = true := by
  cases n with
  | ofNat n => exact h
  | negSucc n => exact (isFinite_neg _).trans h

theorem scaledFloor_natCast (m : ℕ) (e : ℤ) : scaledFloor m e = (scaledFloor m e).natAbs := by
  refine (Int.natAbs_of_nonneg ?_).symm
  unfold scaledFloor
  split
  · exact_mod_cast Nat.zero_le _
  · exact_mod_cast Nat.zero_le _

/-- **The integer part of a float is a float.** -/
theorem isFinite_ofInt_of_trunc? {x : Float} {n : ℤ} (h : Exact.trunc? x = some n) :
    (Float.ofInt n).isFinite = true := by
  unfold Exact.trunc? Exact.ceil? Exact.floor? at h
  rw [unpack_neg] at h
  match parts : x.toModel.unpack with
  | .notANumber | .infinity s => simp [parts, UnpackedFloat.neg] at h
  | .zero s =>
    obtain rfl : 0 = n := by simpa [parts, UnpackedFloat.neg] using h
    rfl
  | .finite s m e pos =>
    refine isFinite_ofInt_of_natAbs (isFinite_ofNat_of_canonical (canonical_of_unpack parts) ?_)
    rw [parts] at h
    cases s with
    | negative =>
      rw [if_pos ((lt_zero_iff parts).mpr rfl)] at h
      obtain rfl : -scaledFloor m e = n := Option.some.inj h
      rw [Int.natAbs_neg, ← scaledFloor_natCast]
    | positive =>
      rw [if_neg (mt (lt_zero_iff parts).mp nofun)] at h
      obtain rfl : scaledFloor m e = n := Option.some.inj h
      exact scaledFloor_natCast m e
end Haulage
