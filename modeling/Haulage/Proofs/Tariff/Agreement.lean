/-
# Pallets by formula and by method

A tariff by pallets is charged in two ways.  The method multiplies the base by the pallets and adds the
toll.  The default formula says the same, but its amounts are put in as text, cut and read again, and
where the sum is not finite the basic computation makes a zero of it.  Base, product and toll may be
anything that a float can be, so the two ways come to different floats.

They never come to different money.  A sum that differs differs in the sign of a zero
(`roundMoney_eq_of_beq`), and a sum that is not finite is nothing, whether that is said of it before it
is rounded or after (`roundMoney_ite_isFinite`).  So toll and total are the same
(`palletTariff_agrees_methodTariff`).  The base is not: a formula takes the toll out of the total again.
-/
import Haulage.Proofs.Report.DefaultFormula
import Haulage.Proofs.Tariff.Finite

namespace Haulage

/-! ## 1. The same money -/

/-- Amounts that compare as equal are the same money. -/
theorem roundMoney_eq_of_beq {x y : Float} (h : (x == y) = true) : roundMoney x = roundMoney y := by
  have zero : roundMoney (-0) = roundMoney 0 := rfl
  calc
    roundMoney x = roundMoney (dropZeroSign x) := (apply_dropZeroSign zero x).symm
    _ = roundMoney (dropZeroSign y) := by rw [dropZeroSign_eq_of_beq h]
    _ = roundMoney y := apply_dropZeroSign zero y

/-- What is not finite is nothing, whether that is said before it is rounded or after. -/
theorem roundMoney_ite_isFinite (x : Float) :
    roundMoney (if x.isFinite then x else 0) = roundMoney x := by
  by_cases finite : x.isFinite = true
  · rw [if_pos finite]
  · have zero : roundMoney 0 = 0 := roundMoney_of_no_cents (by decide)
    rw [if_neg finite, zero, roundMoney, if_neg finite]

/-- The amount of a value is finite. -/
theorem isFinite_of_toAmount {v : Value} {x : Float} (h : v.toAmount = .ok x) :
    x.isFinite = true := by
  have amount := v.ensures_toAmount
  rw [h] at amount
  exact amount.1

/-! ## 2. The default formula on three amounts -/

section

variable {w : Surroundings} {base toll pallets : Float}

/-- The amounts of a pallet formula, made ready. -/
def palletData (base toll pallets : Float) : List (Text × Datum) :=
  [(Quantity.value.name.toList, .number base), (Quantity.toll.name.toList, .number toll),
    (Quantity.pallets.name.toList, .number pallets)]

theorem isName_of_mem_palletData : ∀ entry ∈ palletData base toll pallets, IsName entry.1 := by
  simp only [palletData, List.forall_mem_cons, List.not_mem_nil, false_imp_iff, implies_true, and_true]
  refine ⟨?_, ?_, ?_⟩ <;> exact ⟨_, _, rfl, by decide, by decide⟩

variable (finiteBase : base.isFinite = true) (finiteToll : toll.isFinite = true)
  (finitePallets : pallets.isFinite = true)

include finiteBase finiteToll finitePallets

theorem isFinite_of_mem_palletData :
    ∀ entry ∈ palletData base toll pallets, entry.2.isFinite = true := by
  simp only [palletData, List.forall_mem_cons, List.not_mem_nil, false_imp_iff, implies_true, and_true]
  exact ⟨finiteBase, finiteToll, finitePallets⟩

theorem normalizeEntries_palletVariables :
    ∃ entries, palletVariables base toll pallets = .mapping entries ∧
      normalizeEntries entries = .ok (palletData base toll pallets) := by
  refine ⟨_, rfl, ?_⟩
  have ready {x : Float} (finite : x.isFinite = true) :
      Datum.ofValue (.float x) = .ok (.number x) := by
    rw [Datum.ofValue, Datum.ofFloat, if_pos finite]
  simp only [normalizeEntries_cons, ready finiteBase, ready finiteToll, ready finitePallets]
  rfl

/-- The basic computation on three amounts. -/
theorem basicAmount_palletData :
    basicAmount (palletData base toll pallets) =
      if (base * pallets + toll).isFinite then base * pallets + toll else 0 := by
  have finite := isFinite_of_mem_palletData finiteBase finiteToll finitePallets
  rw [basicAmount, amountOf_of_number finite (q := .value) rfl,
    amountOf_of_number finite (q := .pallets) rfl, amountOf_of_number finite (q := .toll) rfl]

/-- **Whichever stage decides**, the default formula comes to what the basic computation does. -/
theorem evaluate_palletVariables (standard : w.settings = .standard) :
    (evaluate w (palletVariables base toll pallets) (.text defaultText) ==
      basicAmount (palletData base toll pallets)) = true := by
  obtain ⟨entries, whole, normalized⟩ :=
    normalizeEntries_palletVariables finiteBase finiteToll finitePallets
  have finite := isFinite_of_mem_palletData finiteBase finiteToll finitePallets
  have written := writtenAs_default isName_of_mem_palletData finite
  have simplified := written.simplifyChoices
    (Form.default.wellFormed_inline _ Form.wellFormed_default)
    (Form.question_not_mem_inline (by simp) (by simp [Form.default, Form.lexemes]))
  have basic : basicComputation (.mapping entries) =
      .ok (basicAmount (palletData base toll pallets)) := by
    rw [basicComputation, normalize_mapping, normalized]
    rfl
  have short : isTooLong w defaultText = false := by
    rw [isTooLong, standard]
    rfl
  rw [whole]
  obtain ⟨stage, finds⟩ := exists_finds_evaluate (formulaText?_text (by decide)) short basic
  rw [prepare_default standard normalized] at finds
  cases stage with
  | primary =>
    exact beq_basicAmount_of_evaluateText finite written (standardEvaluator_eq_ok_iff.mp finds)
  | alternative =>
    obtain ⟨x, last, evaluates⟩ := finds.exists_expression (.inr rfl)
    obtain rfl := Option.some.inj last
    exact beq_basicAmount_of_evaluateText finite simplified evaluates
  | basic =>
    obtain same := Except.ok.inj (basic.symm.trans (basicStage_eq_ok_iff.mp finds))
    exact same ▸ beq_self (isFinite_basicAmount _)
  | empty => exact finds.elim

end

/-! ## 3. The two tariffs -/

/-- The default formula mentions all three quantities, and the toll as a term of its own. -/
theorem formulaTariff_default (w : Surroundings) (base toll pallets : Float) :
    formulaTariff w base toll pallets (.text defaultText) =
      (Amounts.within (evaluate { w with context := .empty } (palletVariables base toll pallets)
        (.text defaultText)) toll).tariff := by
  have mentionsToll : (Value.text defaultText).mentions? Quantity.toll.name = some true := by decide
  have mentionsValue : (Value.text defaultText).mentions? Quantity.value.name = some true := by decide
  have term : tollWithin (.text defaultText) toll = toll := by
    have mentions : (Value.text defaultText).mentions? tollTerm = some true := by decide
    rw [tollWithin, mentions]
    rfl
  simp only [formulaTariff, mentionsToll, mentionsValue, term]
  rfl

/-- **Pallets cost the same by formula and by method.**  With the standard settings, and for values of
any kind that are amounts, the tariff by the default formula has the toll and the total of the tariff by
the method of pallets, also where the product or the sum is beyond the floats. -/
theorem palletTariff_agrees_methodTariff {w : Surroundings} (standard : w.settings = .standard)
    {base toll pallets : Value} {b t p : Float} (amountBase : base.toAmount = .ok b)
    (amountToll : toll.toAmount = .ok t) (amountPallets : pallets.toAmount = .ok p) :
    ∃ tariff, palletTariff w base toll pallets .null = .ok tariff ∧
      let byMethod := methodTariff base toll (.ofValue (.text "Palet".toList)) pallets .null
      tariff.toll = byMethod.toll ∧ tariff.total = byMethod.total := by
  have byMethod : methodTariff base toll (.ofValue (.text "Palet".toList)) pallets .null =
      (Amounts.onTop (b * p) t).tariff := by
    have named : Method.ofValue (.text "Palet".toList) = .pallet := by decide
    rw [named]
    simp only [methodTariff, methodTariff?, methodBase, amountBase, amountToll, amountPallets]
    rfl
  have byFormula : palletTariff w base toll pallets .null =
      .ok (formulaTariff w b t p (.text defaultText)) := by
    simp only [palletTariff, amountBase, amountToll, amountPallets, standard]
    rfl
  refine ⟨_, byFormula, ?_⟩
  have finiteBase := isFinite_of_toAmount amountBase
  have finiteToll := isFinite_of_toAmount amountToll
  have finitePallets := isFinite_of_toAmount amountPallets
  rw [byMethod, formulaTariff_default]
  refine ⟨rfl, ?_⟩
  have evaluates := evaluate_palletVariables (w := { w with context := .empty }) finiteBase
    finiteToll finitePallets standard
  calc
    roundMoney (evaluate { w with context := .empty } (palletVariables b t p) (.text defaultText))
        = roundMoney (basicAmount (palletData b t p)) := roundMoney_eq_of_beq evaluates
    _ = roundMoney (if (b * p + t).isFinite then b * p + t else 0) := by
      rw [basicAmount_palletData finiteBase finiteToll finitePallets]
    _ = roundMoney (b * p + t) := roundMoney_ite_isFinite _

/-- A product beyond the floats: nothing is charged either way, and the toll stays what it is. -/
theorem palletTariff_agrees_methodTariff_of_overflow :
    (Value.float 1e308).toAmount = .ok 1e308 ∧ (Value.text "7,5".toList).toAmount = .ok 7.5 ∧
      (Value.int 20).toAmount = .ok 20 ∧
    ∃ tariff, palletTariff .bare (.float 1e308) (.text "7,5".toList) (.int 20) .null = .ok tariff ∧
      tariff.toll = 7.5 ∧ tariff.total = 0 := by
  have finite : (1e308 : Float).isFinite = true := by decide +kernel
  have amountBase : (Value.float 1e308).toAmount = .ok 1e308 := by
    simp [Value.toAmount, Value.toAmount?, Value.finite?, finite, Except.map]
  have amountToll : (Value.text "7,5".toList).toAmount = .ok 7.5 := by rfl
  have amountPallets : (Value.int 20).toAmount = .ok 20 := by rfl
  obtain ⟨tariff, run, toll, total⟩ :=
    palletTariff_agrees_methodTariff (w := .bare) rfl amountBase amountToll amountPallets
  refine ⟨amountBase, amountToll, amountPallets, tariff, run, toll.trans ?_, total.trans ?_⟩
  · decide +kernel
  · decide +kernel

end Haulage
