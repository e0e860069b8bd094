/-
# The toll that is split off

A tariff in a context reads the toll twice.  The formula computes with it as with any variable, which
is made ready by `Datum.ofValue` and counts as zero if that makes a text of it: `usedAmount`.  And the
tariff takes it out of the total as an amount of money, which is read by `toAmount`.  The two readings
were meant to be one, and they are for truth values, integers, floats and null; but a comma stands for
the point in an amount only, and decimals, dates and moments are no amounts.  `ReadApart` lists the
values that come to different numbers, and `contextTariff_toll` says that these are all.
-/
import Haulage.Proofs.Context
import Haulage.Proofs.Number.Order
import Haulage.Proofs.Number.Reading
import Haulage.Proofs.Report.Trail
import Haulage.Tariff.Basic

namespace Haulage

/-! ## 1. Two readings of a value -/

namespace Datum

/-- The number of a datum that is a finite one; a text counts as zero. -/
def amount : Datum → Float
  | number x => if x.isFinite then x else 0
  | text _ => 0

theorem amount_of_finite {x : Float} (finite : x.isFinite = true) : (number x).amount = x :=
  if_pos finite

theorem amount_of_not_finite {x : Float} (infinite : ¬x.isFinite = true) : (number x).amount = 0 :=
  if_neg infinite

theorem isFinite_amount (d : Datum) : d.amount.isFinite = true := by
  cases d with
  | number x =>
    by_cases finite : x.isFinite = true
    · rwa [amount_of_finite finite]
    · rw [amount_of_not_finite finite]
      rfl
  | text s =>
    change (0 : Float).isFinite = true
    rfl

theorem amount_ofFloat (x : Float) (s : Text) : (ofFloat x s).amount = (number x).amount := by
  unfold ofFloat
  split
  · rfl
  · rename_i infinite
    rw [amount_of_not_finite infinite, amount]

end Datum

namespace Value

/-- The number that a formula computes with where it finds the value. -/
def usedAmount (v : Value) : Float :=
  match Datum.ofValue v with
  | .ok d => d.amount
  | .error _ => 0

/-- The value reads as one number in a formula and as another where it is an amount. -/
@[mk_iff] inductive ReadApart : Value → Prop
  | comma {s : Text} {x : Float} (comma : ',' ∈ s)
      (amount : readFloat? (s.strip.replaceChar ',' '.') = some x) (finite : x.isFinite = true)
      (nonzero : (x == 0) = false) : ReadApart (.text s)
  | decimal {d : Decimal} {x : Float} (used : d.toFloat? = some x) (finite : x.isFinite = true)
      (nonzero : (x == 0) = false) : ReadApart (.decimal d)
  | moment {m : Moment} (finite : m.epochMillis.isFinite = true)
      (nonzero : (m.epochMillis == 0) = false) : ReadApart (.moment m)
  | date {d : Date} (finite : (Moment.ofDate d).epochMillis.isFinite = true)
      (nonzero : ((Moment.ofDate d).epochMillis == 0) = false) : ReadApart (.date d)

theorem getD_finite? (x : Float) : (finite? x).getD 0 = (Datum.number x).amount := by
  by_cases finite : x.isFinite = true
  · rw [Datum.amount_of_finite finite, finite?, if_pos finite, Option.getD_some]
  · rw [Datum.amount_of_not_finite finite, finite?, if_neg finite, Option.getD_none]

theorem isFinite_usedAmount (v : Value) : v.usedAmount.isFinite = true := by
  unfold usedAmount
  split
  · exact Datum.isFinite_amount _
  · rfl

theorem usedAmount_of_ready {v : Value} {d : Datum} (ready : Datum.ofValue v = .ok d) :
    v.usedAmount = d.amount := by
  rw [usedAmount, ready]

/-- A value that is made ready as the text it is shown with counts as zero. -/
theorem usedAmount_of_written {v : Value} (h : Datum.ofValue v = v.written.map .text) :
    v.usedAmount = 0 := by
  rw [usedAmount, h]
  cases v.written <;> rfl

theorem replaceChar_of_not_mem {old new : Char} {s : Text} (absent : old ∉ s) :
    s.replaceChar old new = s := by
  have kept : ∀ c ∈ s, (if c == old then new else c) = id c := fun c mem =>
    if_neg fun same => absent ((eq_of_beq same : c = old) ▸ mem)
  exact (List.map_congr_left kept).trans (List.map_id s)

theorem toAmount_of_none {s : Text} (unread : readFloat? (s.strip.replaceChar ',' '.') = none) :
    (text s).toAmount = .ok 0 := by
  simp [toAmount, toAmount?, unread, Except.map]

theorem toAmount_of_some {s : Text} {x : Float}
    (read : readFloat? (s.strip.replaceChar ',' '.') = some x) :
    (text s).toAmount = .ok (Datum.number x).amount := by
  simp [toAmount, toAmount?, read, Except.map, getD_finite?]

/-- With a comma a text is no number for a formula. -/
theorem usedAmount_of_comma {s : Text} (comma : ',' ∈ s) : (text s).usedAmount = 0 := by
  have inside : ',' ∈ s.strip := mem_strip isForeign_comma.blank comma
  have unread : readFloat? s.strip = none := by
    refine Option.eq_none_iff_forall_not_mem.mpr fun x read => ?_
    exact not_mem_of_readFloat? isForeign_comma read inside
  have ready : Datum.ofValue (text s) = .ok (.text s) := by simp [Datum.ofValue, unread]
  exact usedAmount_of_ready ready

/-- Without one it is the same number for both. -/
theorem toAmount_of_no_comma {s : Text} (noComma : ',' ∉ s) :
    (text s).toAmount = .ok (text s).usedAmount := by
  have same : s.strip.replaceChar ',' '.' = s.strip :=
    replaceChar_of_not_mem fun inside => noComma (mem_of_mem_strip inside)
  cases read : readFloat? s.strip with
  | none =>
    have ready : Datum.ofValue (text s) = .ok (.text s) := by simp [Datum.ofValue, read]
    rw [toAmount_of_none (same.symm ▸ read), usedAmount_of_ready ready, Datum.amount]
  | some x =>
    have ready : Datum.ofValue (text s) = .ok (.ofFloat x s) := by simp [Datum.ofValue, read]
    rw [toAmount_of_some (same.symm ▸ read), usedAmount_of_ready ready, Datum.amount_ofFloat]

/-- The amount of a number is zero unless the number is finite and not zero itself. -/
theorem zero_beq_amount (x : Float) :
    (0 == (Datum.number x).amount) = true ↔ ¬(x.isFinite = true ∧ (x == 0) = false) := by
  have zero : (0 : Float).isFinite = true := rfl
  by_cases finite : x.isFinite = true
  · rw [Datum.amount_of_finite finite, beq_iff zero finite, ← Bool.not_eq_true, beq_iff finite zero]
    simp only [finite, true_and, not_not]
    exact eq_comm
  · rw [Datum.amount_of_not_finite finite]
    exact iff_of_true (beq_self zero) fun both => finite both.1

theorem amount_beq_zero (x : Float) :
    ((Datum.number x).amount == 0) = true ↔ ¬(x.isFinite = true ∧ (x == 0) = false) := by
  rw [← zero_beq_amount, beq_iff (Datum.isFinite_amount _) rfl, beq_iff rfl (Datum.isFinite_amount _),
    eq_comm]

theorem beq_usedAmount_of_eq {v : Value} {x : Float} (same : x = v.usedAmount)
    (never : ¬v.ReadApart) : (x == v.usedAmount) = true ↔ ¬v.ReadApart := by
  rw [same]
  exact iff_of_true (beq_self (isFinite_usedAmount v)) never

/-- What is no amount at all counts as zero, and a formula may still read a number. -/
theorem zero_beq_usedAmount {v : Value} {y : Float} (used : v.usedAmount = (Datum.number y).amount)
    (apart : v.ReadApart ↔ y.isFinite = true ∧ (y == 0) = false) :
    (0 == v.usedAmount) = true ↔ ¬v.ReadApart := by
  rw [used, apart]
  exact zero_beq_amount y

/-- An integer that is an amount is within the floats. -/
theorem eq_usedAmount_int {n : ℤ} {x : Float} (amount : (int n).toAmount = .ok x) :
    x = (int n).usedAmount := by
  cases found : Exact.ofInt? n with
  | none => simp [toAmount, toAmount?, Number.toFloat, Number.toFloat?, found, Except.map] at amount
  | some y =>
    have ready : Datum.ofValue (int n) = .ok (.number y) := by simp [Datum.ofValue, found]
    simp only [toAmount, toAmount?, Number.toFloat, Number.toFloat?, found, Except.map,
      Except.ok.injEq] at amount
    rw [usedAmount_of_ready ready, ← amount, getD_finite?]

/-- A text is read apart only for a comma in it. -/
theorem beq_usedAmount_text {s : Text} {x : Float} (amount : (text s).toAmount = .ok x) :
    (x == (text s).usedAmount) = true ↔ ¬(text s).ReadApart := by
  by_cases comma : ',' ∈ s
  · have used := usedAmount_of_comma comma
    cases found : readFloat? (s.strip.replaceChar ',' '.') with
    | none =>
      rw [toAmount_of_none found, Except.ok.injEq] at amount
      exact beq_usedAmount_of_eq (amount.symm.trans used.symm) (by simp [readApart_iff, found])
    | some y =>
      rw [toAmount_of_some found, Except.ok.injEq] at amount
      rw [used, ← amount, amount_beq_zero, not_iff_not]
      simp [readApart_iff, comma, found]
  · rw [toAmount_of_no_comma comma, Except.ok.injEq] at amount
    exact beq_usedAmount_of_eq amount.symm (by simp [readApart_iff, comma])

/-- A decimal is no amount, and is a number for a formula unless it signals. -/
theorem zero_beq_usedAmount_decimal (d : Decimal) :
    (0 == (decimal d).usedAmount) = true ↔ ¬(decimal d).ReadApart := by
  cases nearest : d.toFloat? with
  | none =>
    have ready : Datum.ofValue (decimal d) = .error .signalingDecimal := by
      simp [Datum.ofValue, decimalToFloat, nearest, Except.map]
    exact beq_usedAmount_of_eq (by rw [usedAmount, ready]) (by simp [readApart_iff, nearest])
  | some y =>
    have ready : Datum.ofValue (decimal d) = .ok (.ofFloat y d.write) := by
      simp [Datum.ofValue, decimalToFloat, nearest, Except.map]
    exact zero_beq_usedAmount ((usedAmount_of_ready ready).trans (Datum.amount_ofFloat _ _))
      (by simp [readApart_iff, nearest])

/-- **The two readings of a value agree**, unless it is one of those that are read apart. -/
theorem toAmount_beq_usedAmount {v : Value} {x : Float} (amount : v.toAmount = .ok x) :
    (x == v.usedAmount) = true ↔ ¬v.ReadApart := by
  cases v with
  | null | list | mapping =>
    cases amount
    exact beq_usedAmount_of_eq (usedAmount_of_written rfl).symm (by simp [readApart_iff])
  | bool b =>
    cases amount
    exact beq_usedAmount_of_eq (by cases b <;> rfl) (by simp [readApart_iff])
  | int n => exact beq_usedAmount_of_eq (eq_usedAmount_int amount) (by simp [readApart_iff])
  | float y =>
    have read : (float y).toAmount = .ok ((finite? y).getD 0) := rfl
    rw [read, Except.ok.injEq] at amount
    refine beq_usedAmount_of_eq ?_ (by simp [readApart_iff])
    rw [usedAmount_of_ready rfl, Datum.amount_ofFloat, ← amount, getD_finite?]
  | text s => exact beq_usedAmount_text amount
  | decimal d =>
    cases amount
    exact zero_beq_usedAmount_decimal d
  | moment m =>
    cases amount
    exact zero_beq_usedAmount (usedAmount_of_ready rfl) (by simp [readApart_iff])
  | date d =>
    cases amount
    exact zero_beq_usedAmount (usedAmount_of_ready rfl) (by simp [readApart_iff])

end Value

/-! ## 2. The toll among the variables -/

theorem amountOf_eq (data : List (Text × Datum)) (q : Quantity) :
    amountOf data q = ((data.lookup q.name.toList).map Datum.amount).getD 0 := by
  unfold amountOf
  split
  · rename_i found
    rw [found]
    rfl
  · rename_i other
    cases found : data.lookup q.name.toList with
    | none => rfl
    | some d =>
      cases d with
      | number x => exact absurd found (other x)
      | text s => rfl

/-- The basic computation takes a quantity for the number that a formula takes it for. -/
theorem amountOf_eq_usedAmount {c : Context} {data : List (Text × Datum)}
    (ready : normalize (.mapping c.asVariables) = .ok data) {q : Quantity}
    (own : (c.standard q).isNull = true → c.own.lookup q.name.toList = none) :
    amountOf data q = (c.standard q).usedAmount := by
  rw [normalize_mapping] at ready
  have found := lookup_normalizeEntries ready q.name.toList
  rw [Context.lookup_asVariables] at found
  rw [amountOf_eq]
  cases null : (c.standard q).isNull with
  | true =>
    rw [if_pos null, own null] at found
    rw [found, Value.isNull_iff.mp null]
    rfl
  | false =>
    rw [if_neg (by simp [null])] at found
    obtain ⟨d, made, there⟩ := found
    rw [there, Value.usedAmount_of_ready made]
    rfl

/-! ## 3. The toll in the tariff -/

/-- **The toll that is split off is the toll that the formula used**, unless it reads apart.  A tariff
in a context takes the toll of the context out of the total that the formula comes to, if the formula
mentions it and the toll is no integer beyond the floats.  That amount is the number that the variable
is for the formula, in the basic computation too, if and only if the toll is not `ReadApart`. -/
theorem contextTariff_toll {w : Surroundings} {s : Text} {toll : Float}
    (mentions : Text.occursIn Quantity.toll.name.toList s = true)
    (amount : (w.context.standard .toll).toAmount = .ok toll) :
    let total := evaluate w (.mapping w.context.asVariables) (.text s)
    contextTariff w (.text s) = .rounded (total - toll) toll total ∧
      ((toll == (w.context.standard .toll).usedAmount) = true ↔
        ¬(w.context.standard .toll).ReadApart) ∧
      ∀ data, normalize (.mapping w.context.asVariables) = .ok data →
        ((w.context.standard .toll).isNull = true →
          w.context.own.lookup Quantity.toll.name.toList = none) →
        amountOf data .toll = (w.context.standard .toll).usedAmount := by
  refine ⟨?_, Value.toAmount_beq_usedAmount amount, fun data ready own =>
    amountOf_eq_usedAmount ready own⟩
  have mentioned : (Value.text s).mentions? Quantity.toll.name = some true :=
    congrArg some mentions
  simp only [contextTariff, mentioned, amount]

/-- A decimal toll is used by the formula, and nothing is split off. -/
theorem contextTariff_toll_of_decimal :
    let context := Context.ofEntries [("Valor".toList, .int 100), ("Palets".toList, .int 5),
      ("Peaje".toList, .decimal (.finite false ⟨125, -1⟩))]
    let w : Surroundings := { Surroundings.bare with context }
    let formula := "Valor * Palets + Peaje".toList
    let total := evaluate w (.mapping context.asVariables) (.text formula)
    (context.standard .toll).toAmount = .ok 0 ∧ (context.standard .toll).usedAmount = 12.5 ∧
      (context.standard .toll).ReadApart ∧
      contextTariff w (.text formula) = .rounded (total - 0) 0 total := by
  intro context w formula total
  have amount : (w.context.standard .toll).toAmount = .ok 0 := rfl
  obtain ⟨tariff, agree, -⟩ := contextTariff_toll (by decide) amount (s := formula)
  have used : (context.standard .toll).usedAmount = 12.5 := by decide +kernel
  exact ⟨amount, used, not_not.mp fun apart => absurd (agree.mpr apart) (by decide +kernel), tariff⟩

end Haulage
