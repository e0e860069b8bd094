/-
# Formulas that only seem to mention the toll

A tariff splits off the toll if the formula mentions it, and looks for the letters of the name to find
out.  Inlining looks for the word.  The two differ where the name is `Buried`: the letters occur in a
longer word, and in no other way if the name is not used (`occursIn_iff`).

So nothing is split off a formula that does not use the toll, unless it uses a longer name that the
toll's is a part of (`isUnsplit_of_unused`).  A pallet tariff is not taken in by every such name: the
longer one must follow a plus sign and begin with that of the toll, or stand in a formula without value
and pallets, which is then not evaluated at all.
-/
import Haulage.Proofs.Tariff.Finite
import Haulage.Proofs.Validation.Names

namespace Haulage

/-! ## 1. Tariffs without a toll -/

/-- Nothing is split off the total. -/
structure Tariff.IsUnsplit (t : Tariff) : Prop where
  toll : t.toll = 0
  base : t.base = t.total

theorem Amounts.isUnsplit_within_zero (total : Float) : (within total 0).tariff.IsUnsplit where
  toll := by
    have none : roundMoney 0 = 0 := roundMoney_of_no_cents (by decide)
    simp only [tariff, within, Tariff.rounded, none]
  base := congrArg roundMoney (sub_zero_float total)

/-- In a context nothing is split off a formula in which the letters of the toll do not occur. -/
theorem isUnsplit_tariffIn {s : Text} (absent : Text.occursIn Quantity.toll.name.toList s = false)
    (settings : Settings) (clock : Moment) (context : Option Context) :
    (tariffIn settings clock context (.text s)).IsUnsplit := by
  cases context with
  | none => exact ⟨rfl, rfl⟩
  | some context =>
    have mentions : (Value.text s).mentions? Quantity.toll.name = some false :=
      congrArg some absent
    rw [tariffIn, contextTariff, mentions]
    exact Amounts.isUnsplit_within_zero _

/-- Does a pallet tariff take the formula for one that adds the toll as a term, or for one of the toll
alone? -/
def SeemsTolled (s : Text) : Prop :=
  Text.occursIn tollTerm.toList s = true ∨
    Text.occursIn Quantity.toll.name.toList s = true ∧
      Text.occursIn Quantity.value.name.toList s = false ∧
      Text.occursIn Quantity.pallets.name.toList s = false

theorem SeemsTolled.occursIn {s : Text} (h : SeemsTolled s) :
    Text.occursIn Quantity.toll.name.toList s = true := by
  rcases h with term | ⟨alone, -⟩
  · rw [occursIn_iff_isInfix] at term ⊢
    have part : Quantity.toll.name.toList <:+: tollTerm.toList := by decide
    exact part.trans term
  · exact alone

theorem isUnsplit_formulaTariff {s : Text} (absent : ¬ SeemsTolled s) (w : Surroundings)
    (base toll pallets : Float) : (formulaTariff w base toll pallets (.text s)).IsUnsplit := by
  rw [SeemsTolled, not_or] at absent
  obtain ⟨term, alone⟩ := absent
  have none : tollWithin (.text s) toll = 0 := by
    rw [tollWithin, Value.mentions?, Bool.eq_false_iff.mpr term]
    rfl
  have evaluated : (Text.occursIn Quantity.toll.name.toList s &&
      (Value.text s).mentions? Quantity.value.name == some false &&
      (Value.text s).mentions? Quantity.pallets.name == some false) = false := by
    rw [Bool.eq_false_iff]
    intro short
    simp only [Value.mentions?, Bool.and_eq_true, beq_iff_eq, Option.some.injEq] at short
    exact alone ⟨short.1.1, short.1.2, short.2⟩
  have mentions : (Value.text s).mentions? Quantity.toll.name =
      some (Text.occursIn Quantity.toll.name.toList s) := rfl
  simp only [formulaTariff, mentions, evaluated, none]
  exact Amounts.isUnsplit_within_zero _

/-- A pallet tariff is one of its formula on three amounts. -/
theorem exists_of_palletTariff {w : Surroundings} {base toll pallets formula : Value} {t : Tariff}
    (truthy : formula.isTruthy = true) (h : palletTariff w base toll pallets formula = .ok t) :
    ∃ x y z, t = formulaTariff w x y z formula := by
  obtain ⟨x, -, h⟩ := exists_of_bind h
  obtain ⟨y, -, h⟩ := exists_of_bind h
  obtain ⟨z, -, h⟩ := exists_of_bind h
  rw [if_pos truthy] at h
  exact ⟨x, y, z, (Except.ok.inj h).symm⟩

/-! ## 2. Formulas without the toll -/

/-- **Nothing is split off a formula that does not use the toll**, unless the toll's name is buried in
a longer one.  A pallet tariff must take the longer name for the toll as well, added as a term or
alone.  An empty formula stands for the default one there and is left out. -/
theorem isUnsplit_of_unused {s : Text} (plain : '"' ∉ s)
    (unused : Quantity.toll.name.toList ∉ variablesOf s) (w : Surroundings) :
    (∀ context, (tariffIn w.settings w.clock context (.text s)).IsUnsplit ∨
      Buried Quantity.toll.name.toList s) ∧
    (s ≠ [] → ∀ base toll pallets,
      Ensures (fun f => f = .integerTooLarge ∧ AmountBeyond base toll pallets)
        (fun t => t.IsUnsplit ∨ Buried Quantity.toll.name.toList s ∧ SeemsTolled s)
        (palletTariff w base toll pallets (.text s))) := by
  have name : IsName Quantity.toll.name.toList := Sample.isName_quantity .toll
  have word : IsWord Quantity.toll.name.toList := ⟨by decide, name.all⟩
  have absent := not_standsIn_of_unused name (by decide +kernel) plain unused
  have buried (occurs : Text.occursIn Quantity.toll.name.toList s = true) :
      Buried Quantity.toll.name.toList s :=
    ((occursIn_iff word).mp occurs).resolve_left absent
  constructor
  · intro context
    cases occurs : Text.occursIn Quantity.toll.name.toList s with
    | true => exact .inr (buried occurs)
    | false => exact .inl (isUnsplit_tariffIn occurs _ _ context)
  · intro nonempty base toll pallets
    have answered := ensures_palletTariff w base toll pallets (.text s)
    cases run : palletTariff w base toll pallets (.text s) with
    | error f =>
      rw [run] at answered
      exact answered
    | ok t =>
      have truthy : (Value.text s).isTruthy = true := by simp [Value.isTruthy, nonempty]
      obtain ⟨x, y, z, rfl⟩ := exists_of_palletTariff truthy run
      by_cases seems : SeemsTolled s
      · exact .inr ⟨buried seems.occursIn, seems⟩
      · exact .inl (isUnsplit_formulaTariff seems w x y z)

/-- A formula of value and pallets, with a toll that it does not use. -/
theorem isUnsplit_of_unused_toll :
    let context := Context.ofEntries [("Valor".toList, .int 100), ("Palets".toList, .int 5),
      ("Peaje".toList, .int 10)]
    (tariffIn .standard Surroundings.bare.clock (some context)
      (.text "Valor * Palets".toList)).IsUnsplit ∧
    ∃ t, palletTariff .bare (.int 100) (.int 10) (.int 5) (.text "Valor * Palets".toList) = .ok t ∧
      t.IsUnsplit := by
  intro context
  obtain ⟨contexts, pallets⟩ := isUnsplit_of_unused (s := "Valor * Palets".toList) (by decide)
    (by decide +kernel) .bare
  have none : ¬ Buried Quantity.toll.name.toList "Valor * Palets".toList := by
    rintro ⟨w, stands, part, -⟩
    exact absurd (part.trans stands.part.isInfix) (by decide)
  refine ⟨(contexts (some context)).resolve_right none, ?_⟩
  have answered := pallets (by decide) (.int 100) (.int 10) (.int 5)
  cases run : palletTariff .bare (.int 100) (.int 10) (.int 5) (.text "Valor * Palets".toList) with
  | error f =>
    have near {n : Int} (small : n.natAbs < floatLimit) : ¬ (Value.int n).IsBeyondFloats := by
      rintro ⟨m, same, large⟩
      cases same
      exact Nat.not_le.mpr small large
    rw [run] at answered
    rcases answered.2 with beyond | beyond | beyond
    · exact absurd beyond (near (by decide +kernel))
    · exact absurd beyond (near (by decide +kernel))
    · exact absurd beyond (near (by decide +kernel))
  | ok t =>
    rw [run] at answered
    exact ⟨t, rfl, answered.resolve_right fun seems => none seems.1⟩

/-- The toll is found in the name of another one, and is not used. -/
example : Text.occursIn Quantity.toll.name.toList "Valor + PeajeFijo".toList = true ∧
    variablesOf "Valor + PeajeFijo".toList = ["Valor".toList, "PeajeFijo".toList] := by
  decide +kernel

end Haulage
