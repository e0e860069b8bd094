/-
# Decimal values are written so that they are read back

A decimal value is written with all of its digits, and these are read as the coefficient and the
exponent that it has (`spelled_write`), not only as a decimal of the same size.  So the text of
a finite or an infinite value is read as the float nearest to the value (`readFloat?_write`).  A value
that is no number may carry digits, and then its text is not read at all.
-/
import Haulage.Proofs.Formula.ChoiceText
import Haulage.Proofs.Number.Limit
import Haulage.Number.Decimal

namespace Haulage

open NumericChoice (IsRow IsFraction IsPower IsUnsigned)

/-! ## 1. Digits, with a point or without -/

/-- The text is a number without a sign, and read as the decimal. -/
def Spelled (s : Text) (d : Scientific) : Prop := IsUnsigned s ∧ readDecimal? s = some d

theorem Digits.isRow {ds : Text} (digits : Digits ds) (nonempty : ds ≠ []) : IsRow ds :=
  ⟨nonempty, digits.isDecimalDigit⟩

section

variable {whole part power : Text} {e : Int} (digits : Digits whole) (nonempty : whole ≠ [])
  (isPower : IsPower power) (read : readExponent? power = some e)

include digits nonempty isPower read

theorem spelled_whole : Spelled (whole ++ power) ⟨rowValue whole, e⟩ := by
  constructor
  · exact ⟨whole, [], power, rfl, digits.isRow nonempty, .inl rfl, isPower⟩
  · rw [readDecimal?_whole digits.isDecimalDigit nonempty read isPower.stop,
      digits.filterMap_decimalDigit?, rowValue]

theorem spelled_pointed (digits' : Digits part) (nonempty' : part ≠ []) :
    Spelled (whole ++ '.' :: (part ++ power)) ⟨rowValue (whole ++ part), e - part.length⟩ := by
  constructor
  · exact ⟨whole, '.' :: part, power, rfl, digits.isRow nonempty,
      .inr ⟨part, rfl, digits'.isRow nonempty'⟩, isPower⟩
  · rw [readDecimal?_pointed digits.isDecimalDigit nonempty read digits'.isDecimalDigit
        fun c hc => ⟨(isPower.stop c hc).1, (isPower.stop c hc).2.1⟩,
      digits.filterMap_decimalDigit?, digits'.filterMap_decimalDigit?, ← List.map_append,
      List.length_map, rowValue]

end

/-! ## 2. The text of a decimal value -/

/-- The mark, the sign and the digits of an exponent are read as the exponent. -/
theorem isPower_exponentPart (e : Int) :
    IsPower (decimalNotation.exponentPart e) ∧
      readExponent? (decimalNotation.exponentPart e) = some e := by
  have text : decimalNotation.exponentPart e =
      'E' :: (if e < 0 then '-' else '+') :: digitsOf e.natAbs := by
    have long := List.length_pos_of_ne_nil (digitsOf_ne_nil e.natAbs)
    have none : 1 - (digitsOf e.natAbs).length = 0 := by omega
    simp [NumberNotation.exponentPart, decimalNotation, none]
  have digits := Digits.digitsOf e.natAbs
  have nonempty := digitsOf_ne_nil e.natAbs
  have value := rowValue_digitsOf e.natAbs
  have span := @spanDigits_append _ [] digits (by simp)
  rw [List.append_nil] at span
  rw [text]
  generalize digitsOf e.natAbs = ds at digits nonempty value span
  constructor
  · refine .inr ⟨'E', [if e < 0 then '-' else '+'], ds, rfl, .inr rfl, ?_, digits.isRow nonempty⟩
    split <;> simp
  · have some : (ds.map fun c => c.toNat - 48) ≠ [] := by simpa using nonempty
    rw [rowValue] at value
    generalize (ds.map fun c => c.toNat - 48) = vs at some value span
    obtain ⟨v, vs, rfl⟩ := List.exists_cons_of_ne_nil some
    split
    · have size : -((e.natAbs : ℕ) : ℤ) = e := by omega
      simp only [readExponent?, splitSign, span, value]
      exact congrArg Option.some size
    · have size : ((e.natAbs : ℕ) : ℤ) = e := by omega
      simp only [readExponent?, splitSign, span, value]
      exact congrArg Option.some size

/-- A decimal whose point stands among its digits, or in front of them. -/
theorem spelled_pointed_digits {ds : Text} (digits : Digits ds) (nonempty : ds ≠ []) {k : Int}
    (nonpos : k ≤ 0) : Spelled (decimalNotation.pointed ds (k + ds.length)) ⟨rowValue ds, k⟩ := by
  have long := List.length_pos_of_ne_nil nonempty
  have noPower : IsPower [] := .inl rfl
  unfold NumberNotation.pointed
  split
  · rename_i front
    set zeros := List.replicate (-(k + ds.length)).toNat '0' ++ ds with hzeros
    have length : (zeros.length : Int) = -k := by
      rw [hzeros, List.length_append, List.length_replicate]
      omega
    have row : Digits zeros := (Digits.replicate _).append digits
    have value : rowValue (['0'] ++ zeros) = rowValue ds := by
      rw [hzeros, show ['0'] = List.replicate 1 '0' from rfl, rowValue_zeros_append,
        rowValue_zeros_append]
    have spelled := spelled_pointed (show Digits ['0'] by decide) (by simp) noPower rfl row
      (by simp [hzeros, nonempty])
    rw [value, length, zero_sub, neg_neg] at spelled
    simpa using spelled
  · split
    · obtain rfl : k = 0 := by omega
      have spelled := spelled_whole digits nonempty noPower rfl
      simpa [decimalNotation] using spelled
    · rename_i positive inside
      obtain ⟨n, place⟩ : ∃ n : ℕ, k + ds.length = n := ⟨(k + ds.length).toNat, by omega⟩
      rw [place, Int.toNat_natCast]
      have front : Digits (ds.take n) := fun c hc => digits c (List.mem_of_mem_take hc)
      have back : Digits (ds.drop n) := fun c hc => digits c (List.mem_of_mem_drop hc)
      have length : ((ds.drop n).length : Int) = -k := by
        rw [List.length_drop]
        omega
      have some : ds.take n ≠ [] := by
        rw [Ne, List.take_eq_nil_iff]
        rintro (zero | empty)
        · omega
        · exact nonempty empty
      have more : ds.drop n ≠ [] := List.ne_nil_of_length_pos (by omega)
      have spelled := spelled_pointed front some noPower rfl back more
      rw [length, List.take_append_drop, zero_sub, neg_neg] at spelled
      simpa using spelled

/-- **The digits of a decimal are read back.** -/
theorem spelled_write (d : Scientific) : Spelled (decimalNotation.write d) d := by
  obtain ⟨c, k⟩ := d
  have digits := Digits.digitsOf c
  have nonempty := digitsOf_ne_nil c
  have value := rowValue_digitsOf c
  unfold NumberNotation.write
  dsimp only
  generalize digitsOf c = ds at digits nonempty value
  subst value
  split
  · rename_i positional
    have positional : k ≤ 0 ∧ -6 < k + ds.length := by simpa [decimalNotation] using positional
    exact spelled_pointed_digits digits nonempty positional.1
  · obtain ⟨isPower, read⟩ := isPower_exponentPart (k + ds.length - 1)
    match ds with
    | [c] => simpa using spelled_whole digits nonempty isPower read
    | c :: c' :: cs =>
      have first : Digits [c] := fun d hd => digits d (by simpa using .inl (List.mem_singleton.mp hd))
      have rest : Digits (c' :: cs) := fun d hd => digits d (.tail _ hd)
      have spelled := spelled_pointed first (by simp) isPower read rest (by simp)
      have exponent : k + ((c :: c' :: cs).length : Int) - 1 - ((c' :: cs).length : Int) = k := by
        simp only [List.length_cons]
        omega
      rw [exponent] at spelled
      exact spelled

/-- **A decimal value that is a number is read back from its text**, which is read as the float
nearest to it. -/
theorem Decimal.readFloat?_write {d : Decimal} (number : ∀ s q p, d ≠ .notANumber s q p) :
    readFloat? d.write = d.toFloat? := by
  match d with
  | .notANumber s q p => exact absurd rfl (number s q p)
  | .infinite negative => cases negative <;> rfl
  | .finite negative size =>
    obtain ⟨isUnsigned, read⟩ := spelled_write size
    have read := isUnsigned.readFloat?_of_readDecimal? read
    cases negative
    · exact read.1
    · exact read.2

end Haulage
