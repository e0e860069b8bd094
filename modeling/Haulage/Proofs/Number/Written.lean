/-
# Floats are written so that they are read back

The text of a float is a numeral, with a minus sign in front of it if the float is negative, and what
the numeral is read as is the float without its sign (`exists_numeral`).  The decimal that is written
is the shortest that reads back; should the search for it fail, it has all digits of the float, and
those read back because rounding leaves a float as it is.
-/
import Haulage.Proofs.Number.Nearest
import Haulage.Proofs.Number.Order
import Haulage.Proofs.Formula.Numeral

namespace Haulage

open Float.Model (UnpackedFloat Format)
open Float.Model.UnpackedFloat (packComponents)

/-! ## 1. Sizes of floats -/

/-- The float without its sign, taken apart. -/
theorem unpack_abs {x : Float} {s : UnpackedFloat.Sign} {m : ℕ} {e : ℤ} {pos : 0 < m}
    (h : x.toModel.unpack = .finite s m e pos) :
    x.abs.toModel.unpack = .finite .positive m e pos := by
  have : x.abs.toModel = .pack (x.toModel.unpack).abs := rfl
  rw [this, h]
  exact unpack_pack (canonical_of_unpack h)

theorem unpack_abs_zero {x : Float} {s : UnpackedFloat.Sign} (h : x.toModel.unpack = .zero s) :
    x.abs.toModel.unpack = .zero .positive := by
  have size : x.abs.toModel = .pack x.toModel.unpack.abs := rfl
  rw [size, h]
  cases s <;> rfl

theorem exactValue_abs {x : Float} (finite : x.isFinite = true) :
    exactValue x.abs = |exactValue x| := by
  rcases unpack_of_isFinite finite with ⟨s, zero⟩ | ⟨s, m, e, pos, parts⟩
  · rw [exactValue_of_zero zero, exactValue_of_zero (unpack_abs_zero zero), abs_zero]
  · rw [exactValue_of_finite (unpack_abs parts), abs_exactValue_of_finite parts]
    rfl

/-- What compares as equal to a float that is not zero is the float. -/
theorem eq_of_beq_finite {x y : Float} {s : UnpackedFloat.Sign} {m : ℕ} {e : ℤ} {pos : 0 < m}
    (h : y.toModel.unpack = .finite s m e pos) (same : (x == y) = true) : x = y := by
  rcases eq_or_zero_of_compare_eq ((beq_iff_compare x y).mp same) with rfl | ⟨_, _, -, zero⟩
  · rfl
  · rw [h] at zero
    cases zero

/-- The first bit of a float is its sign. -/
theorem shiftRight_bitsOf (s : UnpackedFloat.Sign) (exponent : BitVec 11) (mantissa : BitVec 52) :
    bitsOf s exponent mantissa >>> 63 = s.toBitVec.zeroExtend 64 := by
  simp only [bitsOf, packComponents]
  ext i hi
  rw [BitVec.getElem_ushiftRight]
  grind

theorem isNegative_iff {x : Float} {s : UnpackedFloat.Sign} {m : ℕ} {e : ℤ} {pos : 0 < m}
    (h : x.toModel.unpack = .finite s m e pos) : Exact.isNegative x = true ↔ s = .negative := by
  have whole := pack_unpack x.toModel
  rw [h] at whole
  have bits : (x.toBits >>> 63 == 1) =
      (UnpackedFloat.pack Format.binary64 (.finite s m e pos) >>> 63 == 1#64) := by
    change (x.toModel.toBits >>> 63 == 1) = _
    rw [← whole, Bool.eq_iff_iff, beq_iff_eq, beq_iff_eq, ← UInt64.toBitVec_inj]
    rfl
  have sign : (s.toBitVec.zeroExtend 64 == 1#64) = true ↔ s = .negative := by
    cases s
    · exact ⟨fun _ => rfl, fun _ => rfl⟩
    · exact ⟨fun h => absurd h (by decide), nofun⟩
  rw [Exact.isNegative, bits, pack_finite (canonical_of_unpack h), ← sign]
  split <;> rw [shiftRight_bitsOf]

/-- A decimal of no digits is read as zero. -/
theorem unpack_toFloat_zero (k : ℤ) :
    (Scientific.toFloat ⟨0, k⟩).toModel.unpack = .zero .positive := by
  rw [Scientific.toFloat, Float.ofScientific]
  dsimp only
  split
  · rename_i fast
    have inside : k.natAbs < Float.exactlyRepresentablePowersOfTen.size := by
      change k.natAbs < 23
      omega
    have power : isPowerOfTen Float.exactlyRepresentablePowersOfTen[k.natAbs] k.natAbs :=
      isPowerOfTen_powers ⟨k.natAbs, inside⟩
    generalize Float.exactlyRepresentablePowersOfTen[k.natAbs] = p at power ⊢
    obtain ⟨n, j, pos, parts, -⟩ := unpack_of_isPowerOfTen power
    have zero : (0 : ℕ).toUInt64.toFloat.toModel.unpack = .zero .positive := rfl
    split
    · change (Float.Model.pack (UnpackedFloat.div Format.binary64
        (0 : ℕ).toUInt64.toFloat.toModel.unpack p.toModel.unpack)).unpack = _
      rw [zero, parts, UnpackedFloat.div]
      rfl
    · change (Float.Model.pack (UnpackedFloat.mul Format.binary64
        (0 : ℕ).toUInt64.toFloat.toModel.unpack p.toModel.unpack)).unpack = _
      rw [zero, parts, UnpackedFloat.mul]
      rfl
  · rw [Float.Model.ofScientific, UnpackedFloat.ofScientific, dif_pos rfl]
    rfl

/-- **A decimal is read as a number**, if perhaps as an infinite one. -/
theorem isNaN_toFloat (d : Scientific) : d.toFloat.isNaN = false := by
  obtain ⟨c, k⟩ := d
  rcases Nat.eq_zero_or_pos c with rfl | pos
  · change (Scientific.toFloat ⟨0, k⟩).toModel.unpack.isNaN = false
    rw [unpack_toFloat_zero]
    rfl
  have rounding (s : UnpackedFloat.Sign) (q : ℚ) : (rounded s q).isNaN = false := by
    unfold rounded
    dsimp only
    split <;> rfl
  rcases le_or_gt k.natAbs 2048 with near | far
  · rw [toFloat_eq_nearest pos near]
    exact isNaN_unpack_pack (rounding _ _)
  · -- so far from the point the decimal is infinite, or zero, or rounded
    rw [Scientific.toFloat, Float.ofScientific]
    dsimp only
    rw [dif_neg (by omega), ite_negOfNat_natAbs]
    refine isNaN_unpack_pack ?_
    rw [UnpackedFloat.ofScientific, dif_neg pos.ne']
    have most : (2 : ℤ) ^ Format.binary64.exponentBits = 2048 := rfl
    split
    · rfl
    split
    · rfl
    split
    · omega
    · rw [div_finite pos (Nat.pow_pos (by decide))]
      exact rounding ..

/-! ## 2. The shortest decimal -/

/-- A point that is found lies on the grid. -/
theorem exponent_of_gridPoint? {x : Float} {num den : ℕ} {k : ℤ} {d : Scientific}
    (found : gridPoint? x num den k = some d) : d.exponent = k := by
  simp only [gridPoint?] at found
  split at found
  · split at found
    · cases found
      rfl
    · cases found
      rfl
    · cases found
      split <;> rfl
  · cases found
    rfl
  · cases found
    rfl
  · cases found

/-- A point that is found lies on one of the grids that were tried. -/
theorem exponent_of_coarsestPoint? {x : Float} {num den tries : ℕ} {k : ℤ} {d : Scientific}
    (h : coarsestPoint? x num den tries k = some d) : k - tries < d.exponent ∧ d.exponent ≤ k := by
  induction tries generalizing k with
  | zero => cases h
  | succ tries ih =>
    rw [coarsestPoint?] at h
    split at h
    · rename_i d' found
      obtain rfl : d' = d := by simpa using h
      have grid := exponent_of_gridPoint? found
      omega
    · have := ih h
      omega

theorem toRat_allDigits (m : ℕ) (e : ℤ) : (allDigits m e).toRat = m * 2 ^ e := by
  unfold allDigits Scientific.toRat
  split
  · rename_i nonneg
    have power : (2 : ℚ) ^ e = 2 ^ e.toNat := by rw [← zpow_natCast, Int.toNat_of_nonneg nonneg]
    rw [power]
    push_cast
    simp
  · rename_i negative
    obtain ⟨n, rfl⟩ : ∃ n : ℕ, e = -n := ⟨(-e).toNat, by omega⟩
    have five : (5 : ℚ) ^ n ≠ 0 := by positivity
    have ten : (10 : ℚ) ^ n = 2 ^ n * 5 ^ n := by rw [← mul_pow]; norm_num
    dsimp only
    rw [neg_neg, Int.toNat_natCast, Nat.pow_eq, zpow_neg, zpow_neg, zpow_natCast, zpow_natCast, ten]
    push_cast
    field_simp

/-- **The shortest decimal is read as the float without its sign.** -/
theorem toFloat_shortest {x : Float} {s : UnpackedFloat.Sign} {m : ℕ} {e : ℤ} {pos : 0 < m}
    (h : x.toModel.unpack = .finite s m e pos) :
    (shortest x).toFloat = x.abs ∧ 0 < (shortest x).coefficient ∧
      (shortest x).exponent.natAbs ≤ 1100 := by
  have canonical := canonical_of_unpack h
  have bits : 1 ≤ bitCount m ∧ bitCount m ≤ 53 := by
    have := (Nat.log2_lt pos.ne').mpr canonical.short
    rw [bitCount, if_neg pos.ne']
    omega
  have := canonical.least
  have := canonical.greatest
  have size := unpack_abs h
  simp only [shortest, h]
  cases found : coarsestPoint? x.abs (scaledFraction m e).num.toNat (scaledFraction m e).den 24
      (decimalScale m e) with
  | some d =>
    have reads : d.toFloat = x.abs := eq_of_beq_finite size (readsAs_of_coarsestPoint? found)
    have grid := exponent_of_coarsestPoint? found
    refine ⟨reads, Nat.pos_of_ne_zero fun zero => ?_, ?_⟩
    · obtain ⟨c, k⟩ := d
      obtain rfl : c = 0 := zero
      have := unpack_toFloat_zero k
      rw [reads, size] at this
      cases this
    · simp only [decimalScale] at grid
      simp only [Option.getD_some]
      omega
  | none =>
    have positive : 0 < (allDigits m e).coefficient := by
      unfold allDigits
      split
      · exact Nat.mul_pos pos (Nat.pow_pos (by decide))
      · exact Nat.mul_pos pos (Nat.pow_pos (by decide))
    have bound : (allDigits m e).exponent.natAbs ≤ 1100 := by
      unfold allDigits
      split
      · exact Nat.zero_le _
      · dsimp only
        omega
    refine ⟨?_, positive, bound⟩
    rw [Option.getD_none, toFloat_eq_nearest positive (by omega), toRat_allDigits]
    exact nearest_eq size

/-- A zero has no digits. -/
theorem toRat_shortest_of_zero {x : Float} {s : UnpackedFloat.Sign}
    (h : x.toModel.unpack = .zero s) : (shortest x).toRat = 0 := by
  simp [shortest, h, Scientific.toRat]

/-! ## 3. The numeral that is written -/

theorem rowValue_zeros_append (n : ℕ) (s : Text) :
    rowValue (List.replicate n '0' ++ s) = rowValue s := by
  rw [rowValue_append, rowValue_replicate, Nat.mul_zero, Nat.zero_add]

/-- Digits in front of a point and digits behind it are a numeral. -/
theorem exists_numeral_point {whole part : Text} (front : Digits whole) (nonempty : whole ≠ [])
    (behind : Digits part) : ∃ n : Numeral, n.text = whole ++ '.' :: part ∧
      n.value = ⟨rowValue (whole ++ part), -part.length⟩ := by
  refine ⟨⟨whole, some part, none, nonempty, front, ?_, by simp⟩, ?_, ?_⟩
  · rintro p hp
    obtain rfl := Option.mem_some.mp hp
    exact behind
  · simp [Numeral.text, Numeral.partText, Numeral.exponentText]
  · simp [Numeral.value, Numeral.power]

/-- A decimal written positionally is a numeral of its value. -/
theorem exists_numeral_pointed {ds : Text} (digits : Digits ds) (nonempty : ds ≠ []) (k : ℤ) :
    ∃ n : Numeral, floatNotation.pointed ds (k + ds.length) = n.text ∧
      n.value.toRat = rowValue ds * 10 ^ k ∧ (n.value.exponent = k ∨ n.value.exponent = -1) := by
  have long : 0 < ds.length := List.length_pos_of_ne_nil nonempty
  have zero : Digits ['0'] := by decide
  unfold NumberNotation.pointed
  split
  · rename_i small
    set zeros := List.replicate (-(k + ds.length)).toNat '0' with hzeros
    obtain ⟨n, text, value⟩ :=
      exists_numeral_point zero (by simp) ((Digits.replicate _ : Digits zeros).append digits)
    have exponent : (-((zeros ++ ds).length : ℤ)) = k := by
      rw [List.length_append, hzeros, List.length_replicate]
      omega
    have row : rowValue (['0'] ++ (zeros ++ ds)) = rowValue ds := by
      rw [show ['0'] = List.replicate 1 '0' from rfl, rowValue_zeros_append, hzeros,
        rowValue_zeros_append]
    rw [exponent, row] at value
    exact ⟨n, text.symm, by rw [value, Scientific.toRat], .inl (by rw [value])⟩
  split
  · rename_i positive whole
    obtain ⟨z, rfl⟩ : ∃ z : ℕ, k = z := ⟨k.toNat, by omega⟩
    obtain ⟨n, text, value⟩ :=
      exists_numeral_point (digits.append (.replicate z)) (by simp [nonempty]) zero
    have zeros : ((z : ℤ) + ds.length).toNat - ds.length = z := by omega
    have row : rowValue (ds ++ List.replicate z '0' ++ ['0']) = 10 ^ (z + 1) * rowValue ds := by
      rw [List.append_assoc, show List.replicate z '0' ++ ['0'] = List.replicate (z + 1) '0' from
        List.replicate_succ'.symm, rowValue_append, rowValue_replicate, List.length_replicate,
        Nat.add_zero]
    refine ⟨n, by simp [text, floatNotation, zeros], ?_, .inr (by rw [value]; rfl)⟩
    rw [value, row]
    change ((10 ^ (z + 1) * rowValue ds : ℕ) : ℚ) * 10 ^ (-1 : ℤ) = _
    rw [zpow_natCast, zpow_neg_one]
    push_cast
    ring
  · rename_i positive inside
    obtain ⟨place, reach⟩ : ∃ n : ℕ, k + ds.length = n := ⟨(k + ds.length).toNat, by omega⟩
    rw [reach, Int.toNat_natCast]
    have front : ds.take place ≠ [] := by
      rw [Ne, List.take_eq_nil_iff]
      rintro (none | empty)
      · omega
      · exact nonempty empty
    obtain ⟨n, text, value⟩ :=
      exists_numeral_point (fun c hc => digits c (List.mem_of_mem_take hc)) front
        (fun c hc => digits c (List.mem_of_mem_drop hc) : Digits (ds.drop place))
    have exponent : (-((ds.drop place).length : ℤ)) = k := by
      rw [List.length_drop]
      omega
    rw [exponent, List.take_append_drop] at value
    exact ⟨n, text.symm, by rw [value, Scientific.toRat], .inl (by rw [value])⟩

/-- The exponent that is written behind the digits. -/
theorem exists_numeral_exponent {d : Char} {ds : Text} (digits : Digits (d :: ds)) (e : ℤ) :
    ∃ n : Numeral, (match d :: ds with
        | [] => []
        | [c] => [c]
        | c :: cs => c :: '.' :: cs) ++ floatNotation.exponentPart e = n.text ∧
      n.value.coefficient = rowValue (d :: ds) ∧ n.value.exponent = e - ds.length := by
  set zeros := List.replicate (2 - (digitsOf e.natAbs).length) '0' ++ digitsOf e.natAbs with hzeros
  have nonempty : zeros ≠ [] := by simp [zeros, digitsOf_ne_nil]
  have all : Digits zeros := (Digits.replicate _).append (.digitsOf _)
  have size : rowValue zeros = e.natAbs := by
    rw [hzeros, rowValue_zeros_append, rowValue_digitsOf]
  have power : (if decide (e < 0) = true then -(rowValue zeros : ℤ) else rowValue zeros) = e := by
    simp only [decide_eq_true_eq, size]
    omega
  have exponent : ∀ x ∈ some (decide (e < 0), zeros), x.2 ≠ [] ∧ Digits x.2 := by
    rintro x hx
    obtain rfl := Option.mem_some.mp hx
    exact ⟨nonempty, all⟩
  have text : floatNotation.exponentPart e =
      'e' :: (if decide (e < 0) = true then '-' else '+') :: zeros := by
    simp [NumberNotation.exponentPart, floatNotation, hzeros]
  have first : Digits [d] := fun c hc => digits c (by simpa using .inl (List.mem_singleton.mp hc))
  rw [text]
  cases ds with
  | nil =>
    exact ⟨⟨[d], none, some (decide (e < 0), zeros), by simp, first, by simp, exponent⟩, rfl, rfl,
      by simpa [Numeral.value, Numeral.power] using power⟩
  | cons d' ds =>
    refine ⟨⟨[d], some (d' :: ds), some (decide (e < 0), zeros), by simp, first, ?_, exponent⟩, ?_,
      rfl, by simpa [Numeral.value, Numeral.power] using power⟩
    · rintro p hp
      obtain rfl := Option.mem_some.mp hp
      exact fun c hc => digits c (.tail _ hc)
    · simp [Numeral.text, Numeral.partText, Numeral.exponentText]

/-- **A decimal is written as a numeral of its value.** -/
theorem exists_numeral_write (d : Scientific) :
    ∃ n : Numeral, floatNotation.write d = n.text ∧ n.value.toRat = d.toRat ∧
      (n.value.exponent = d.exponent ∨ n.value.exponent = -1) := by
  obtain ⟨c, k⟩ := d
  have value := rowValue_digitsOf c
  have digits := Digits.digitsOf c
  have nonempty := digitsOf_ne_nil c
  unfold NumberNotation.write
  dsimp only
  generalize digitsOf c = ds at value digits nonempty
  subst value
  split
  · exact exists_numeral_pointed digits nonempty k
  · obtain ⟨d, ds, rfl⟩ := List.exists_cons_of_ne_nil nonempty
    obtain ⟨n, text, coefficient, exponent⟩ :=
      exists_numeral_exponent digits (k + (d :: ds).length - 1)
    have exponent : n.value.exponent = k := by
      rw [exponent, List.length_cons]
      push_cast
      ring
    exact ⟨n, text, by rw [Scientific.toRat, coefficient, exponent, Scientific.toRat],
      .inl exponent⟩

/-! ## 4. The text of a float -/

/-- A decimal that is not zero has a coefficient that is not. -/
theorem coefficient_pos {d : Scientific} (h : 0 < d.toRat) : 0 < d.coefficient :=
  Nat.pos_of_ne_zero fun zero => by simp [Scientific.toRat, zero] at h

theorem floatText_of_finite {x : Float} {s : UnpackedFloat.Sign} {m : ℕ} {e : ℤ} {pos : 0 < m}
    (h : x.toModel.unpack = .finite s m e pos) :
    floatText x = (if x < 0 then ['-'] else []) ++ floatNotation.write (shortest x) := by
  obtain ⟨number, bounded⟩ := not_isNaN_of_isFinite (isFinite_of_unpack_finite h)
  have sign : Exact.isNegative x = true ↔ x < 0 := (isNegative_iff h).trans (lt_zero_iff h).symm
  rw [floatText, number, bounded]
  simp only [Bool.false_eq_true, if_false, sign]
  split <;> rfl

/-- The integer that a whole float equals. -/
theorem integerText_of_whole {x : Float} {s : UnpackedFloat.Sign} {m : ℕ} {e : ℤ} {pos : 0 < m}
    (h : x.toModel.unpack = .finite s m e pos)
    (whole : (scaledFraction (s.apply m) e).num % (scaledFraction (s.apply m) e).den = 0) :
    ∃ n : ℕ, (n : ℚ) = m * 2 ^ e ∧
      integerText ((scaledFraction (s.apply m) e).num / (scaledFraction (s.apply m) e).den) =
        (if x < 0 then ['-'] else []) ++ digitsOf n := by
  have den : ((scaledFraction (s.apply m) e).den : ℚ) ≠ 0 := by
    exact_mod_cast (scaledFraction (s.apply m) e).den_pos.ne'
  have num := num_scaledFraction (s.apply m) e
  obtain ⟨z, split⟩ : ((scaledFraction (s.apply m) e).den : ℤ) ∣ (scaledFraction (s.apply m) e).num :=
    Int.dvd_of_emod_eq_zero whole
  have value : (z : ℚ) = s.apply m * 2 ^ e := by
    rw [split] at num
    push_cast at num
    rw [mul_comm] at num
    exact mul_right_cancel₀ den num
  have positive := size_pos pos e
  rw [split, Int.mul_ediv_cancel_left _ (by exact_mod_cast den), integerText]
  cases s with
  | negative =>
    have value : (z : ℚ) = -(m * 2 ^ e) := by simpa [UnpackedFloat.Sign.apply] using value
    have below : z < 0 := by
      have : (z : ℚ) < 0 := by linarith
      exact_mod_cast this
    refine ⟨z.natAbs, ?_, by rw [if_pos below, if_pos ((lt_zero_iff h).mpr rfl)]; rfl⟩
    rw [Nat.cast_natAbs, abs_of_neg below]
    push_cast
    linarith
  | positive =>
    have value : (z : ℚ) = m * 2 ^ e := by simpa [UnpackedFloat.Sign.apply] using value
    have above : ¬ z < 0 := by
      have : ¬ (z : ℚ) < 0 := by linarith
      exact_mod_cast this
    have above' : ¬ x < 0 := fun less => by cases (lt_zero_iff h).mp less
    refine ⟨z.natAbs, ?_, by rw [if_neg above, if_neg above']; rfl⟩
    rw [Nat.cast_natAbs, abs_of_nonneg (not_lt.mp above), value]

/-- **The text of a finite float is a numeral, with a minus sign in front of it if the float is
negative, that is read as the float without its sign.** -/
theorem exists_numeral {x : Float} (finite : x.isFinite = true) :
    ∃ n : Numeral, numberText x = (if x < 0 then ['-'] else []) ++ n.text ∧
      n.value.toFloat = x.abs := by
  rcases unpack_of_isFinite finite with ⟨s, parts⟩ | ⟨s, m, e, pos, parts⟩
  · have zero : x = Float.ofModel (.pack (.zero s)) := by
      apply eq_of_unpack_eq
      rw [parts]
      cases s <;> rfl
    subst zero
    refine ⟨.ofNat 0, ?_⟩
    cases s <;> exact ⟨rfl, rfl⟩
  · have size := unpack_abs parts
    have positive := size_pos pos e
    have reads {d : Scientific} (value : d.toRat = m * 2 ^ e)
        (bound : d.exponent.natAbs ≤ 2048) : d.toFloat = x.abs := by
      rw [toFloat_eq_nearest (coefficient_pos (value ▸ positive)) bound, value, nearest_eq size]
    have fraction : Exact.fraction? x = some (scaledFraction (s.apply m) e) := by
      rw [Exact.fraction?, parts]
    rw [numberText, fraction]
    dsimp only
    split
    · rename_i whole
      simp only [Bool.and_eq_true, beq_iff_eq] at whole
      obtain ⟨n, value, text⟩ := integerText_of_whole parts whole.1
      refine ⟨.ofNat n, by rw [text, Numeral.text_ofNat], reads ?_ ?_⟩
      · simp [Numeral.value_ofNat, Scientific.toRat, value]
      · rw [Numeral.value_ofNat]
        exact Nat.zero_le _
    · obtain ⟨reading, coefficient, bound⟩ := toFloat_shortest parts
      obtain ⟨n, text, value, exponent⟩ := exists_numeral_write (shortest x)
      have same : n.value.toFloat = (shortest x).toFloat := by
        have := Scientific.toRat_pos coefficient
        rw [toFloat_eq_nearest coefficient (by omega),
          toFloat_eq_nearest (coefficient_pos (value ▸ this)) (by omega), value]
      exact ⟨n, by rw [floatText_of_finite parts, text], same.trans reading⟩

end Haulage
