/-
# Every moment has its milliseconds

The milliseconds since 1970 are read off a float, and a float that is infinite or no number has no
integer part.  No moment gets there: the calendar ends with the year 9999, a distance from universal
time is below one day, and so the seconds are less than `2^41` on either side of 1970, the float
nearest to them is finite, and so is its product with a thousand (`exists_millis`).
-/
import Haulage.Calendar.Moment
import Haulage.Proofs.Formula.Rounding

namespace Haulage

open Float.Model (UnpackedFloat Format)

/-! ## 1. The ends of the calendar -/

theorem daysInMonth_le (year month : ℕ) : daysInMonth year month ≤ 31 := by
  unfold daysInMonth
  repeat' split
  all_goals decide

theorem daysBeforeMonth_le (year : ℕ) : (month : ℕ) → daysBeforeMonth year month ≤ 31 * month
  | 0 | 1 => Nat.zero_le _
  | month + 2 => by
    have before := daysBeforeMonth_le year (month + 1)
    have last := daysInMonth_le year (month + 1)
    rw [daysBeforeMonth]
    · omega
    · simp

/-- The calendar has fewer than `2^22` days. -/
theorem Date.ordinal_lt (d : Date) : d.ordinal < 2 ^ 22 := by
  have years : daysBeforeYear d.year ≤ 9998 * 366 := by
    have := d.year_le
    simp only [daysBeforeYear]
    omega
  have months := daysBeforeMonth_le d.year d.month
  have last := daysInMonth_le d.year d.month
  have := d.month_le
  have := d.day_le
  unfold ordinal
  omega

theorem TimeOfDay.micros_lt (t : TimeOfDay) : t.micros < microsPerDay := by
  have := t.hour_lt
  have := t.minute_lt
  have := t.second_lt
  have := t.microsecond_lt
  unfold micros microsPerDay
  omega

/-- A moment is less than `2^60` microseconds away from 1970. -/
theorem Moment.natAbs_microsSinceEpoch_lt (m : Moment) : m.microsSinceEpoch.natAbs < 2 ^ 60 := by
  have day := m.date.ordinal_lt
  have time := m.time.micros_lt
  have zone : ((m.offset.map Offset.micros).getD 0).natAbs < microsPerDay := by
    cases m.offset with
    | none => decide
    | some o =>
      have := o.lower
      have := o.upper
      simp only [Option.map_some, Option.getD_some]
      omega
  unfold microsSinceEpoch
  generalize (m.offset.map Offset.micros).getD 0 = away at zone
  simp only [microsPerDay, epochOrdinal] at time zone ⊢
  omega

/-! ## 2. The float of the milliseconds -/

theorem exists_trunc? {x : Float} (finite : x.isFinite = true) : ∃ n, Exact.trunc? x = some n := by
  unfold Exact.trunc? Exact.ceil?
  rw [floor?_eq finite, floor?_eq (by rwa [isFinite_neg])]
  split
  · exact ⟨_, rfl⟩
  · exact ⟨_, rfl⟩

/-- A value below `2^k` is rounded to a finite float below `2^(k+1)`. -/
theorem rounded_lt {q : ℚ} (pos : 0 < q) {k : ℤ} (low : -1021 ≤ k) (high : k ≤ 1023)
    (small : q < 2 ^ k) (s : UnpackedFloat.Sign) :
    (Float.ofModel (.pack (rounded s q))).isFinite = true ∧
      |exactValue (.ofModel (.pack (rounded s q)))| < 2 ^ (k + 1) := by
  obtain ⟨finite, error⟩ := near_rounded pos low high small s
  have size : |s.apply 1 * q| = q := by
    cases s <;> simp [UnpackedFloat.Sign.apply, abs_of_pos pos]
  have close := abs_sub_abs_le_abs_sub (exactValue (.ofModel (.pack (rounded s q)))) (s.apply 1 * q)
  have less : (2 ^ (k - 54) : ℚ) ≤ 2 ^ k := zpow_le_zpow_right₀ one_le_two (by omega)
  have double : (2 ^ (k + 1) : ℚ) = 2 ^ k * 2 := zpow_add_one₀ two_ne_zero k
  refine ⟨finite, ?_⟩
  rw [size] at close
  linarith

/-- The seconds since 1970, as a float. -/
theorem nearestQuotient_million (negative : Bool) {n : ℕ} (less : n < 2 ^ 60) :
    (nearestQuotient negative n 1000000).isFinite = true ∧
      |exactValue (nearestQuotient negative n 1000000)| < 2 ^ 42 := by
  rcases Nat.eq_zero_or_pos n with rfl | pos
  · have zero : ∃ s, (nearestQuotient negative 0 1000000).toModel.unpack = .zero s := by
      cases negative
      · exact ⟨.positive, rfl⟩
      · exact ⟨.negative, rfl⟩
    obtain ⟨s, zero⟩ := zero
    refine ⟨isFinite_of_unpack_zero zero, ?_⟩
    rw [exactValue_of_zero zero, abs_zero]
    exact pow_pos two_pos 42
  · unfold nearestQuotient
    rw [dif_pos ⟨pos, by decide⟩, div_finite]
    have positive : (0 : ℚ) < n := Nat.cast_pos.mpr pos
    have less : (n : ℚ) < 2 ^ 60 := by exact_mod_cast less
    refine rounded_lt (k := 41) ?_ (by decide) (by decide) ?_ _
    · positivity
    · norm_num
      linarith

theorem unpack_thousand : ∃ m e, ∃ pos : 0 < m,
    (1000 : Float).toModel.unpack = .finite .positive m e pos ∧ 2 ^ 52 ≤ m ∧
      (m * 2 ^ e : ℚ) = 1000 :=
  ⟨1000 * 2 ^ 43, -43, by decide, rfl, by decide, by norm_num⟩

/-- A float below `2^42` can be multiplied by a thousand. -/
theorem isFinite_mul_thousand {x : Float} (finite : x.isFinite = true)
    (small : |exactValue x| < 2 ^ 42) : (x * 1000).isFinite = true := by
  obtain ⟨n, k, positive, thousand, long, value⟩ := unpack_thousand
  change (Float.ofModel (.pack (UnpackedFloat.mul Format.binary64 x.toModel.unpack
    (1000 : Float).toModel.unpack))).isFinite = true
  rw [thousand]
  rcases unpack_of_isFinite finite with ⟨s, zero⟩ | ⟨s, m, e, pos, parts⟩
  · rw [zero]
    have product : UnpackedFloat.mul Format.binary64 (.zero s) (.finite .positive n k positive) =
        .zero (s * .positive) := by
      simp [UnpackedFloat.mul]
    rw [product]
    cases s <;> rfl
  · rw [abs_exactValue_of_finite parts] at small
    rw [parts, mul_finite pos positive (long.trans (Nat.le_mul_of_pos_left n pos)), value]
    refine (rounded_lt (k := 52) (mul_pos (size_pos pos e) (by norm_num)) (by decide) (by decide)
      ?_ _).1
    norm_num at small ⊢
    linarith

namespace Moment

/-- The milliseconds from the start of 1970, if the float that they are read off is finite. -/
def millis? (m : Moment) : Option ℤ :=
  Exact.trunc? (nearestQuotient (m.microsSinceEpoch < 0) m.microsSinceEpoch.natAbs 1000000 * 1000)

/-- **Every moment has its milliseconds.** -/
theorem exists_millis (m : Moment) : ∃ n, m.millis? = some n ∧ m.epochMillis = Float.ofInt n := by
  obtain ⟨finite, small⟩ :=
    nearestQuotient_million (m.microsSinceEpoch < 0) m.natAbs_microsSinceEpoch_lt
  obtain ⟨n, whole⟩ := exists_trunc? (isFinite_mul_thousand finite small)
  refine ⟨n, whole, ?_⟩
  change Float.ofInt (m.millis?.getD 0) = Float.ofInt n
  rw [millis?, whole, Option.getD_some]

end Moment

end Haulage
