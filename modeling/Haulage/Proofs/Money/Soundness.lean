/-
# Rounding to cents is sound

Two roundings make an amount whole cents: its decimal is rounded to cents, and the cents to a float.
Both keep the order and treat the two signs alike, and the decimal that an amount is written as keeps
the order too, since it is rounded back to the amount (`nearestValue_writtenValue`).  So rounding to
cents keeps the order and commutes with the sign.

That a rounded amount stays as it is does not follow from this.  It does because whole cents that are
rounded to a float are read as that float, so the float is written with two places at most and its
decimal is whole cents already (`exponent_shortest_of_cents`).  What could still go wrong is that the
rounded amount has more digits than an account can hold.  Below `10^26` it does not: a whole number
is its own rounded amount, and what is none is below `2^52`.
-/
import Haulage.Proofs.Money
import Haulage.Proofs.Number.Shortest

namespace Haulage

open Float.Model (UnpackedFloat Format)

/-! ## 1. Amounts as they are written -/

/-- The decimal value that an amount is written as. -/
def writtenValue (x : Float) : ℚ := if x < 0 then -(shortest x).toRat else (shortest x).toRat

section Written

variable {x y : Float}

theorem writtenValue_of_zero {s : UnpackedFloat.Sign} (zero : x.toModel.unpack = .zero s) :
    writtenValue x = 0 := by
  simp [writtenValue, toRat_shortest_of_zero zero]

/-- Only zeros have the value zero. -/
theorem exists_zero_of_exactValue (finite : x.isFinite = true) (value : exactValue x = 0) :
    ∃ s, x.toModel.unpack = .zero s := by
  rcases unpack_of_isFinite finite with zero | ⟨s, m, e, pos, parts⟩
  · exact zero
  · rw [exactValue_of_finite parts, mul_eq_zero] at value
    rcases value with mantissa | unit
    · cases s <;> simp [UnpackedFloat.Sign.apply, pos.ne'] at mantissa
    · exact absurd unit (zpow_ne_zero e two_ne_zero)

/-- **The decimal is rounded back to the amount.** -/
theorem nearestValue_writtenValue (finite : x.isFinite = true) :
    nearestValue (writtenValue x) = exactValue x := by
  have size := nearestSize_shortest finite
  have nonneg := (shortest x).toRat_nonneg
  unfold writtenValue
  split
  · rename_i negative
    rw [nearestValue_neg, nearestValue_of_nonneg nonneg, size,
      abs_of_neg ((lt_zero_iff_exactValue finite).mp negative), neg_neg]
  · rename_i nonnegative
    rw [nearestValue_of_nonneg nonneg, size,
      abs_of_nonneg (not_lt.mp (mt (lt_zero_iff_exactValue finite).mpr nonnegative))]

/-- Amounts are written in their order. -/
theorem writtenValue_mono (hx : x.isFinite = true) (hy : y.isFinite = true)
    (le : exactValue x ≤ exactValue y) : writtenValue x ≤ writtenValue y := by
  by_contra greater
  have back := nearestValue_mono (not_le.mp greater).le
  rw [nearestValue_writtenValue hx, nearestValue_writtenValue hy] at back
  have same : (x == y) = true := (beq_iff hx hy).mpr (le.antisymm back)
  rcases eq_or_zero_of_compare_eq ((beq_iff_compare x y).mp same) with rfl | ⟨_, _, zeroX, zeroY⟩
  · exact greater le_rfl
  · exact greater (by rw [writtenValue_of_zero zeroX, writtenValue_of_zero zeroY])

/-- A sign does not change the digits. -/
theorem shortest_neg (x : Float) : shortest (-x) = shortest x := by
  have size : (-x).abs = x.abs := by
    have left : (-x).abs = .ofModel (.pack (-x).toModel.unpack.abs) := rfl
    have right : x.abs = .ofModel (.pack x.toModel.unpack.abs) := rfl
    rw [left, right, unpack_neg]
    cases x.toModel.unpack <;> rfl
  unfold shortest
  rw [unpack_neg, size]
  cases x.toModel.unpack <;> rfl

theorem writtenValue_neg (finite : x.isFinite = true) : writtenValue (-x) = -writtenValue x := by
  have negated := lt_zero_iff_exactValue ((isFinite_neg x).trans finite)
  rw [exactValue_neg] at negated
  unfold writtenValue
  simp only [shortest_neg, negated, lt_zero_iff_exactValue finite]
  rcases lt_trichotomy (exactValue x) 0 with negative | zero | positive
  · rw [if_neg (by linarith), if_pos negative, neg_neg]
  · obtain ⟨s, parts⟩ := exists_zero_of_exactValue finite zero
    simp [zero, toRat_shortest_of_zero parts]
  · rw [if_pos (by linarith), if_neg (by linarith)]

/-- The text of an amount is a numeral of its decimal value, behind a minus sign if it has one. -/
theorem exists_numeral_floatText (finite : x.isFinite = true) :
    ∃ n : Numeral, floatText x = (if Exact.isNegative x then ['-'] else []) ++ n.text ∧
      n.value.toRat = (shortest x).toRat := by
  obtain ⟨n, text, value, -⟩ := exists_numeral_write (shortest x)
  obtain ⟨number, bounded⟩ := not_isNaN_of_isFinite finite
  refine ⟨n, ?_, value⟩
  rw [floatText, number, bounded, ← text]
  simp only [Bool.false_eq_true, if_false]
  split <;> rfl

end Written

/-! ## 2. Cents as floats -/

/-- The float nearest to a number of cents. -/
def ofCents (n : ℤ) : Float := Fraction.nearest ⟨n, 100, by decide⟩

/-- Two digits below the greatest number of cents is far below the limit of floats. -/
theorem cents_lt_floatLimit {c : ℕ} (digits : c < 10 ^ mostCentDigits) :
    (c / 100 : ℚ) < floatLimit := by
  have digits : (c : ℚ) < 10 ^ 28 := by exact_mod_cast digits
  have power : (2 ^ (87 : ℤ) : ℚ) ≤ 2 ^ (1023 : ℤ) := zpow_le_zpow_right₀ one_le_two (by decide)
  obtain ⟨u, positive, -, -, last, -, value⟩ := exists_halfUnit
  rw [last] at power
  rw [value]
  have small : (c / 100 : ℚ) < 2 ^ (87 : ℤ) := by norm_num; linarith
  linarith only [small, power, positive]

theorem toFloat_cents {c : ℕ} (pos : 0 < c) :
    (Scientific.mk c (-2)).toFloat = nearest (c / 100) := by
  rw [toFloat_eq_nearest pos (show (-2 : ℤ).natAbs ≤ 2048 by decide), toRat_cents]

theorem ofCents_zero : ofCents 0 = 0 := rfl

theorem ofCents_natCast {c : ℕ} (pos : 0 < c) : ofCents c = nearest (c / 100) := by
  have quotient := div_finite (s := .positive) (t := .positive) (e := 0) (k := 0) pos
    (by decide : 0 < 100)
  simp only [zpow_zero, mul_one] at quotient
  have sign : ¬ ((c : ℤ) < 0) := by omega
  simp only [ofCents, Fraction.nearest, nearestQuotient, Int.natAbs_natCast, sign, decide_false]
  rw [dif_pos ⟨pos, by decide⟩]
  exact congrArg (fun u => Float.ofModel (.pack u)) quotient

/-- Rounding a size with a minus sign gives the negative. -/
theorem ofModel_rounded_negative {q : ℚ} (pos : 0 < q) (limit : q < floatLimit) :
    Float.ofModel (.pack (rounded .negative q)) = -nearest q := by
  have negated : rounded .negative q = (rounded .positive q).neg := by
    unfold rounded
    dsimp only
    split <;> rfl
  have minus : -nearest q = .ofModel (.pack (nearest q).toModel.unpack.neg) := rfl
  have model : (nearest q).toModel = .pack (rounded .positive q) := rfl
  rw [negated, minus, model]
  rcases exists_rounded pos (exponentOf_fits pos limit) .positive with
    ⟨-, zero⟩ | ⟨m, e, canonical, finite, -⟩
  · rw [zero]
    rfl
  · rw [finite, unpack_pack canonical]

theorem ofCents_neg_natCast {c : ℕ} (pos : 0 < c) (digits : c < 10 ^ mostCentDigits) :
    ofCents (-c) = -nearest (c / 100) := by
  have quotient := div_finite (s := .negative) (t := .positive) (e := 0) (k := 0) pos
    (by decide : 0 < 100)
  simp only [zpow_zero, mul_one] at quotient
  have sign : (-(c : ℤ)) < 0 := by omega
  have positive : (0 : ℚ) < c / 100 := by positivity
  simp only [ofCents, Fraction.nearest, nearestQuotient, Int.natAbs_neg, Int.natAbs_natCast, sign,
    decide_true]
  rw [dif_pos ⟨pos, by decide⟩, ← ofModel_rounded_negative positive (cents_lt_floatLimit digits)]
  exact congrArg (fun u => Float.ofModel (.pack u)) quotient

/-- **Cents that an account can hold** are rounded to a finite float of their nearest value. -/
theorem exactValue_ofCents {n : ℤ} (digits : n.natAbs < 10 ^ mostCentDigits) :
    (ofCents n).isFinite = true ∧ exactValue (ofCents n) = nearestValue (n / 100) := by
  have limit := cents_lt_floatLimit digits
  rcases lt_trichotomy n 0 with negative | rfl | positive
  · obtain ⟨c, rfl⟩ : ∃ c : ℕ, n = -c := ⟨n.natAbs, by omega⟩
    rw [Int.natAbs_neg, Int.natAbs_natCast] at digits limit
    have pos : 0 < c := by omega
    have value : (0 : ℚ) < c / 100 := by positivity
    have sign : (((-c : ℤ) : ℚ) / 100) = -(c / 100) := by
      push_cast
      ring
    rw [ofCents_neg_natCast pos digits, isFinite_neg, exactValue_neg, sign, nearestValue_neg,
      nearestValue_of_nonneg value.le, exactValue_nearest value limit]
    exact ⟨isFinite_nearest_of_lt value limit, rfl⟩
  · rw [ofCents_zero, exactValue_zero, Int.cast_zero, zero_div, nearestValue_of_nonneg le_rfl,
      nearestSize_zero]
    exact ⟨rfl, rfl⟩
  · obtain ⟨c, rfl⟩ := Int.eq_ofNat_of_zero_le positive.le
    rw [Int.natAbs_natCast] at digits limit
    have pos : 0 < c := by omega
    have value : (0 : ℚ) < c / 100 := by positivity
    rw [ofCents_natCast pos, Int.cast_natCast, nearestValue_of_nonneg value.le,
      exactValue_nearest value limit]
    exact ⟨isFinite_nearest_of_lt value limit, rfl⟩

/-! ## 3. Amounts below `10^26` -/

/-- A size below `10^26` by half a cent at most is rounded to one that is not. -/
theorem le_nearestSize_cents : (10 ^ 26 : ℚ) ≤ nearestSize (10 ^ 26 - 1 / 200) := by
  have pos : (0 : ℚ) < 10 ^ 26 - 1 / 200 := by norm_num
  have exponent : exponentOf (10 ^ 26 - 1 / 200) = 34 := by
    have least := exponentOf_ge pos (k := 86) (by norm_num)
    have most := exponentOf_le pos (k := 87) (by decide) (by norm_num)
    omega
  have mantissa : 5820766091346741 ≤
      (leftOver ((10 ^ 26 - 1 / 200 : ℚ) / 2 ^ (34 : ℤ))).roundedMantissa := by
    have near := abs_roundedMantissa_sub_le (r := (10 ^ 26 - 1 / 200 : ℚ) / 2 ^ (34 : ℤ))
      (by norm_num)
    have least : ((5820766091346740 : ℕ) : ℚ) <
        (leftOver ((10 ^ 26 - 1 / 200 : ℚ) / 2 ^ (34 : ℤ))).roundedMantissa := by
      refine lt_of_lt_of_le ?_ (sub_le_of_abs_sub_le_left near)
      norm_num
    exact_mod_cast least
  rw [nearestSize, exponent]
  have mantissa : ((5820766091346741 : ℕ) : ℚ) ≤ _ := Nat.cast_le.mpr mantissa
  refine le_trans ?_ (mul_le_mul_of_nonneg_right mantissa (zpow_pos two_pos _).le)
  norm_num

section Held

variable {x y : Float}

/-- **An account can hold an amount below `10^26`.** -/
theorem isHeld_of_lt (finite : x.isFinite = true) (small : |exactValue x| < 10 ^ 26) : IsHeld x := by
  refine ⟨finite, ?_⟩
  by_contra digits
  have digits : (10 ^ 28 : ℚ) ≤ centsOf (shortest x) := by exact_mod_cast not_lt.mp digits
  have above := (abs_le.mp (abs_centsOf_sub_le (shortest x))).2
  have decimal : (10 ^ 26 - 1 / 200 : ℚ) ≤ (shortest x).toRat := by linarith
  have rounded := nearestSize_mono (by norm_num) decimal
  rw [nearestSize_shortest finite] at rounded
  linarith [le_nearestSize_cents]

/-- The cents of an amount that is held. -/
def centsWritten (x : Float) : ℤ := roundAway (100 * writtenValue x)

theorem centsWritten_eq (x : Float) :
    centsWritten x = if x < 0 then -(centsOf (shortest x) : ℤ) else centsOf (shortest x) := by
  unfold centsWritten writtenValue
  split
  · rw [mul_neg, roundAway_neg, centsOf_eq]
  · rw [centsOf_eq]

theorem natAbs_centsWritten (x : Float) : (centsWritten x).natAbs = centsOf (shortest x) := by
  rw [centsWritten_eq]
  split <;> simp

/-- **An amount that is held is rounded to the float of its cents.** -/
theorem roundMoney_eq_ofCents (held : IsHeld x) : roundMoney x = ofCents (centsWritten x) := by
  rw [centsWritten_eq]
  rcases Nat.eq_zero_or_pos (centsOf (shortest x)) with none | pos
  · rw [roundMoney_of_no_cents none, none]
    split <;> rfl
  · rw [roundMoney_of_held held pos, toFloat_cents pos]
    split
    · rw [ofCents_neg_natCast pos held.digits]
    · rw [ofCents_natCast pos]

theorem exactValue_roundMoney (held : IsHeld x) : (roundMoney x).isFinite = true ∧
    exactValue (roundMoney x) = nearestValue (centsWritten x / 100) := by
  rw [roundMoney_eq_ofCents held]
  refine exactValue_ofCents ?_
  rw [natAbs_centsWritten]
  exact held.digits

/-- Rounding to cents keeps the order. -/
theorem roundMoney_mono (hx : IsHeld x) (hy : IsHeld y) (le : x ≤ y) :
    roundMoney x ≤ roundMoney y := by
  obtain ⟨finiteX, valueX⟩ := exactValue_roundMoney hx
  obtain ⟨finiteY, valueY⟩ := exactValue_roundMoney hy
  have written := writtenValue_mono hx.finite hy.finite ((le_iff hx.finite hy.finite).mp le)
  have cents : centsWritten x ≤ centsWritten y := roundAway_mono (by linarith)
  rw [le_iff finiteX finiteY, valueX, valueY]
  refine nearestValue_mono ?_
  have cents : (centsWritten x : ℚ) ≤ centsWritten y := by exact_mod_cast cents
  linarith

theorem IsHeld.neg (held : IsHeld x) : IsHeld (-x) :=
  ⟨(isFinite_neg x).trans held.finite, by rw [shortest_neg]; exact held.digits⟩

/-- Rounding to cents commutes with the sign, up to the sign of a zero. -/
theorem roundMoney_neg (held : IsHeld x) : (roundMoney (-x) == -roundMoney x) = true := by
  obtain ⟨finite, value⟩ := exactValue_roundMoney held
  obtain ⟨finite', value'⟩ := exactValue_roundMoney held.neg
  have cents : centsWritten (-x) = -centsWritten x := by
    rw [centsWritten, writtenValue_neg held.finite, mul_neg, roundAway_neg, centsWritten]
  rw [beq_iff finite' ((isFinite_neg _).trans finite), exactValue_neg, value', value, cents,
    ← nearestValue_neg]
  push_cast
  rw [neg_div]

theorem abs_exactValue_roundMoney (held : IsHeld x) :
    |exactValue (roundMoney x)| = nearestSize (centsOf (shortest x) / 100) := by
  have size : |(centsWritten x / 100 : ℚ)| = centsOf (shortest x) / 100 := by
    rw [← natAbs_centsWritten, abs_div, Nat.cast_natAbs, Int.cast_abs]
    norm_num
  rw [(exactValue_roundMoney held).2, abs_nearestValue, size]

/-- An amount with cents is not rounded to nothing. -/
theorem exactValue_roundMoney_ne_zero (held : IsHeld x) (pos : 0 < centsOf (shortest x)) :
    exactValue (roundMoney x) ≠ 0 := by
  have least := le_nearestSize_of_cents pos
  rw [← abs_exactValue_roundMoney held] at least
  exact abs_pos.mp ((zpow_pos two_pos _).trans_le least)

/-- A rounded amount is never minus zero. -/
theorem roundMoney_ne_neg_zero (held : IsHeld x) : roundMoney x ≠ -0 := by
  intro zero
  rcases Nat.eq_zero_or_pos (centsOf (shortest x)) with none | pos
  · rw [roundMoney_of_no_cents none] at zero
    exact absurd zero (by decide)
  · refine exactValue_roundMoney_ne_zero held pos ?_
    rw [zero, exactValue_neg, exactValue_zero, neg_zero]

/-! ## 4. Rounded amounts -/

/-- **An amount that is written with two places at most stays as it is.** -/
theorem roundMoney_eq_self (held : IsHeld x) (places : -2 ≤ (shortest x).exponent)
    (nonzero : exactValue x ≠ 0) : roundMoney x = x := by
  obtain ⟨finite, value⟩ := exactValue_roundMoney held
  have cents : (centsWritten x / 100 : ℚ) = writtenValue x := by
    have exact' := centsOf_of_exponent places
    rw [centsWritten_eq, writtenValue]
    split
    · push_cast
      linarith
    · push_cast
      linarith
  rw [cents, nearestValue_writtenValue held.finite] at value
  rcases unpack_of_isFinite held.finite with ⟨s, zero⟩ | ⟨s, m, e, pos, parts⟩
  · exact absurd (exactValue_of_zero zero) nonzero
  · exact eq_of_beq_finite parts ((beq_iff finite held.finite).mpr value)

/-- A whole number is written with two places at most. -/
theorem exponent_shortest_of_whole {s : UnpackedFloat.Sign} {m : ℕ} {e : ℤ} {pos : 0 < m}
    (parts : x.toModel.unpack = .finite s m e pos) (whole : 0 ≤ e) : -2 ≤ (shortest x).exponent := by
  obtain ⟨k, rfl⟩ := Int.eq_ofNat_of_zero_le whole
  have cents : 0 < 100 * (m * 2 ^ k) := by positivity
  refine exponent_shortest_of_cents parts cents ?_
  have value : ((100 * (m * 2 ^ k) : ℕ) / 100 : ℚ) = m * 2 ^ (k : ℤ) := by
    rw [zpow_natCast]
    push_cast
    ring
  rw [readsAs_cents_iff (unpack_abs parts) cents, value]
  exact nearestSize_canonical (canonical_of_unpack parts)

/-- A rounded amount is written with two places at most. -/
theorem exponent_shortest_roundMoney (held : IsHeld x) (pos : 0 < centsOf (shortest x)) :
    -2 ≤ (shortest (roundMoney x)).exponent := by
  have finite := (exactValue_roundMoney held).1
  have nonzero := exactValue_roundMoney_ne_zero held pos
  rcases unpack_of_isFinite finite with ⟨s, zero⟩ | ⟨s, m, e, positive, parts⟩
  · exact absurd (exactValue_of_zero zero) nonzero
  · refine exponent_shortest_of_cents parts pos ?_
    rw [readsAs_cents_iff (unpack_abs parts) pos, ← abs_exactValue_roundMoney held,
      abs_exactValue_of_finite parts]

/-- Rounding to cents does not reach `10^26` from below: from `2^52` on an amount is a whole number,
and less than that gains half a cent at most. -/
theorem abs_exactValue_roundMoney_lt (finite : x.isFinite = true)
    (small : |exactValue x| < 10 ^ 26) : |exactValue (roundMoney x)| < 10 ^ 26 := by
  have held := isHeld_of_lt finite small
  rcases lt_or_ge |exactValue x| (2 ^ 52) with low | high
  · have decimal : (shortest x).toRat < 2 ^ 52 := by
      by_contra above
      have above : ((2 ^ 52 : ℕ) : ℚ) ≤ (shortest x).toRat := by exact_mod_cast not_lt.mp above
      have rounded := nearestSize_mono (Nat.cast_nonneg _) above
      rw [nearestSize_shortest finite, nearestSize_natCast (by decide)] at rounded
      push_cast at rounded
      linarith
    have cents : (centsOf (shortest x) / 100 : ℚ) ≤ (2 ^ 52 + 1 : ℕ) := by
      have off := (abs_le.mp (abs_centsOf_sub_le (shortest x))).2
      push_cast
      linarith
    have rounded := nearestSize_mono (by positivity) cents
    rw [← abs_exactValue_roundMoney held, nearestSize_natCast (by decide)] at rounded
    exact rounded.trans_lt (by norm_num)
  · have nonzero : exactValue x ≠ 0 := abs_pos.mp (lt_of_lt_of_le (by norm_num) high)
    rcases unpack_of_isFinite finite with ⟨s, zero⟩ | ⟨s, m, e, pos, parts⟩
    · exact absurd (exactValue_of_zero zero) nonzero
    have whole : 0 ≤ e := by
      by_contra part
      rw [abs_exactValue_of_finite parts] at high
      exact absurd ((canonical_of_unpack parts).lt_of_neg (not_le.mp part)) (not_lt.mpr high)
    rwa [roundMoney_eq_self held (exponent_shortest_of_whole parts whole) nonzero]

/-- A rounded amount is whole cents. -/
theorem roundMoney_roundMoney (finite : x.isFinite = true) (small : |exactValue x| < 10 ^ 26) :
    roundMoney (roundMoney x) = roundMoney x := by
  have held := isHeld_of_lt finite small
  rcases Nat.eq_zero_or_pos (centsOf (shortest x)) with none | pos
  · rw [roundMoney_of_no_cents none]
    rfl
  · exact roundMoney_eq_self
      (isHeld_of_lt (exactValue_roundMoney held).1 (abs_exactValue_roundMoney_lt finite small))
      (exponent_shortest_roundMoney held pos) (exactValue_roundMoney_ne_zero held pos)

end Held

/-! ## 5. Soundness -/

/-- **Rounding to cents is sound** below `10^26`.  The result is the float nearest to a whole number of
cents, and this is the number nearest to the decimal that the amount is written as, a half going away
from zero.  So rounding keeps the order, commutes with the sign, and changes nothing when it is done
again; and nothing is rounded to minus zero. -/
theorem roundMoney_sound {x y : Float} (hx : x.isFinite = true) (hy : y.isFinite = true)
    (smallX : |exactValue x| < 10 ^ 26) (smallY : |exactValue y| < 10 ^ 26) :
    (∃ w : Numeral, ∃ n,
      floatText x = (if Exact.isNegative x then ['-'] else []) ++ w.text ∧
      RoundsAway (100 * (if x < 0 then -w.value.toRat else w.value.toRat)) n ∧
      roundMoney x = Fraction.nearest ⟨n, 100, by decide⟩) ∧
    roundMoney x ≠ -0 ∧
    roundMoney (roundMoney x) = roundMoney x ∧
    (roundMoney (-x) == -roundMoney x) = true ∧
    (x ≤ y → roundMoney x ≤ roundMoney y) := by
  have held := isHeld_of_lt hx smallX
  refine ⟨?_, roundMoney_ne_neg_zero held, roundMoney_roundMoney hx smallX, roundMoney_neg held,
    roundMoney_mono held (isHeld_of_lt hy smallY)⟩
  obtain ⟨w, text, value⟩ := exists_numeral_floatText hx
  refine ⟨w, centsWritten x, text, ?_, roundMoney_eq_ofCents held⟩
  rw [value]
  exact roundsAway_roundAway _

/-- Halves of a cent go up as they are written, though both of these floats are below their halves. -/
theorem roundMoney_sound_of_half_cents :
    roundMoney 1.005 = 1.01 ∧ roundMoney 2.675 = 2.68 ∧
      roundMoney (roundMoney 1.005) = roundMoney 1.005 ∧ roundMoney 1.005 ≤ roundMoney 2.675 := by
  have first : (1.005 : Float).toModel.unpack =
      .finite .positive 4526117625507348 (-52) (by decide) := rfl
  have second : (2.675 : Float).toModel.unpack =
      .finite .positive 6023564501608038 (-51) (by decide) := rfl
  have small : |exactValue 1.005| < 10 ^ 26 := by
    rw [exactValue_of_finite first]
    norm_num [UnpackedFloat.Sign.apply, abs_lt]
  have small' : |exactValue 2.675| < 10 ^ 26 := by
    rw [exactValue_of_finite second]
    norm_num [UnpackedFloat.Sign.apply, abs_lt]
  obtain ⟨-, -, again, -, order⟩ := roundMoney_sound (isFinite_of_unpack_finite first)
    (isFinite_of_unpack_finite second) small small'
  exact ⟨by decide +kernel, by decide +kernel, again, order (by decide +kernel)⟩

end Haulage
