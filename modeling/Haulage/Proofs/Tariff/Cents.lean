/-
# How tariffs add up

The base, the toll and the total of a tariff are rounded one by one, from `Amounts` of which one was
computed from the other two: either the toll was put on top of the base, or it was taken out of the
total.  That computation is off by a hundredth of a cent, and every rounding by half a cent; so in cents
the total is the sum of the parts or one off it, and it is the sum if two of the amounts are whole cents
before they are rounded (`tariff_cents`).

Said of amounts that an account can hold, all three, and of tariffs below `10^12`.  An amount that is not
held counts as nothing by itself, whatever becomes of the other two, and above `10^12` the cents
can no longer be told from the float.
-/
import Haulage.Proofs.Money
import Haulage.Tariff.Basic

namespace Haulage

/-! ## 1. Amounts -/

/-- The amounts of a tariff before they are rounded. -/
structure Amounts where
  base : Float
  toll : Float
  total : Float

namespace Amounts

/-- Nothing to charge. -/
def nothing : Amounts := ⟨0, 0, 0⟩

/-- A toll on top of a base. -/
def onTop (base toll : Float) : Amounts := ⟨base, toll, base + toll⟩

/-- A toll that is part of a total. -/
def within (total toll : Float) : Amounts := ⟨total - toll, toll, total⟩

/-- The tariff of the amounts. -/
def tariff (a : Amounts) : Tariff := .rounded a.base a.toll a.total

/-- An account can hold all three. -/
structure AreHeld (a : Amounts) : Prop where
  base : IsHeld a.base
  toll : IsHeld a.toll
  total : IsHeld a.total

/-- At most one of the three changes when it is rounded. -/
def TwoAreWhole (a : Amounts) : Prop :=
  IsWhole a.base ∧ IsWhole a.toll ∨ IsWhole a.base ∧ IsWhole a.total ∨
    IsWhole a.toll ∧ IsWhole a.total

/-- One of the three is computed from the other two. -/
def Adds (a : Amounts) : Prop := a.total = a.base + a.toll ∨ a.base = a.total - a.toll

theorem adds_nothing : Adds nothing := .inl rfl

theorem adds_onTop (base toll : Float) : Adds (onTop base toll) := .inl rfl

theorem adds_within (total toll : Float) : Adds (within total toll) := .inr rfl

end Amounts

/-- All fields of the tariff are below a limit. -/
structure Tariff.IsBelow (t : Tariff) (limit : ℚ) : Prop where
  base : |exactValue t.base| < limit
  toll : |exactValue t.toll| < limit
  total : |exactValue t.total| < limit

/-- By how many cents the total is above the sum of base and toll. -/
def Tariff.gap (t : Tariff) : ℤ := centsIn t.total - (centsIn t.base + centsIn t.toll)

/-! ## 2. Rounding three amounts -/

/-- What is rounded below `10^12` is hardly above that. -/
theorem abs_exactValue_lt {x : Float} (held : IsHeld x)
    (below : |exactValue (roundMoney x)| < 10 ^ 12) : |exactValue x| < 2 ^ 40 := by
  obtain ⟨c, near, off⟩ := exists_cents held below
  rw [abs_le] at near off
  rw [abs_lt] at below ⊢
  constructor <;> linarith

/-- Adding is off by a hundredth of a cent. -/
theorem Amounts.Adds.error {a : Amounts} (adds : a.Adds) (held : a.AreHeld)
    (below : a.tariff.IsBelow (10 ^ 12)) :
    |100 * exactValue a.total - (100 * exactValue a.base + 100 * exactValue a.toll)| ≤ 1 / 50 := by
  -- whichever of the three is computed, it is below `2^41` and so rounded by `2^(-13)` at most
  have room {p q : ℚ} (hp : |p| < 2 ^ 40) (hq : |q| < 2 ^ 40) : |p| + |q| < 2 ^ (41 : ℤ) := by
    norm_num at hp hq ⊢
    linarith
  have toll := abs_exactValue_lt held.toll below.toll
  rcases adds with sum | difference
  · have base := abs_exactValue_lt held.base below.base
    have near := (near_add held.base.finite held.toll.finite (by norm_num) (by norm_num)
      ((abs_add_le _ _).trans_lt (room base toll))).error
    rw [← sum] at near
    norm_num at near
    rw [abs_le] at near ⊢
    constructor <;> linarith
  · have total := abs_exactValue_lt held.total below.total
    have near := (near_sub held.total.finite held.toll.finite (by norm_num) (by norm_num)
      ((abs_sub _ _).trans_lt (room total toll))).error
    rw [← difference] at near
    norm_num at near
    rw [abs_le] at near ⊢
    constructor <;> linarith

/-- The total is a cent off the sum at most, and not even that if two amounts are whole. -/
theorem Amounts.Adds.gap {a : Amounts} (adds : a.Adds) (held : a.AreHeld)
    (below : a.tariff.IsBelow (10 ^ 12)) :
    |a.tariff.gap| ≤ 1 ∧ (a.TwoAreWhole → a.tariff.gap = 0) := by
  have error := abs_le.mp (adds.error held below)
  obtain ⟨base, wholeBase⟩ := abs_centsIn_sub_le held.base below.base
  obtain ⟨toll, wholeToll⟩ := abs_centsIn_sub_le held.toll below.toll
  obtain ⟨total, wholeTotal⟩ := abs_centsIn_sub_le held.total below.total
  have value : (a.tariff.gap : ℚ) = centsIn (roundMoney a.total) -
      (centsIn (roundMoney a.base) + centsIn (roundMoney a.toll)) := by
    simp [Tariff.gap, Amounts.tariff, Tariff.rounded]
  rw [abs_le] at base toll total
  constructor
  · have less : |(a.tariff.gap : ℚ)| < 2 := by
      rw [value, abs_lt]
      constructor <;> linarith
    have less : |a.tariff.gap| < 2 := by exact_mod_cast less
    omega
  · intro whole
    have less : |(a.tariff.gap : ℚ)| < 1 := by
      rw [value, abs_lt]
      rcases whole with ⟨b, t⟩ | ⟨b, s⟩ | ⟨t, s⟩
      · have b := abs_le.mp (wholeBase b)
        have t := abs_le.mp (wholeToll t)
        constructor <;> linarith
      · have b := abs_le.mp (wholeBase b)
        have s := abs_le.mp (wholeTotal s)
        constructor <;> linarith
      · have t := abs_le.mp (wholeToll t)
        have s := abs_le.mp (wholeTotal s)
        constructor <;> linarith
    exact Int.abs_lt_one_iff.mp (by exact_mod_cast less)

/-! ## 3. The amounts behind each tariff -/

/-- The amounts of a formula on amounts. -/
def formulaAmounts (w : Surroundings) (base toll pallets : Float) (formula : Value) : Amounts :=
  match formula.mentions? Quantity.toll.name with
  | none => .onTop (base * pallets) toll
  | some mentionsToll =>
    if mentionsToll && formula.mentions? Quantity.value.name == some false &&
        formula.mentions? Quantity.pallets.name == some false then
      .onTop base toll
    else
      .within (evaluate { w with context := .empty } (palletVariables base toll pallets) formula)
        (tollWithin formula toll)

/-- The amounts of a formula, or of the default one, on values of any kind. -/
def palletAmounts (w : Surroundings) (base toll pallets formula : Value) :
    Except ValueFault Amounts := do
  let base ← base.toAmount
  let toll ← toll.toAmount
  let pallets ← pallets.toAmount
  .ok (formulaAmounts w base toll pallets
    (if formula.isTruthy then formula else w.settings.defaultFormula))

/-- The amounts of a formula in its context. -/
def contextAmounts (w : Surroundings) (formula : Value) : Amounts :=
  let total := evaluate w (.mapping w.context.asVariables) formula
  match formula.mentions? Quantity.toll.name with
  | none => .nothing
  | some false => .within total 0
  | some true =>
    match (w.context.standard .toll).toAmount with
    | .ok toll => .within total toll
    | .error _ => .nothing

/-- The amounts of a method of charging. -/
def methodAmounts? (base toll : Value) (method : Method) (pallets distance : Value) :
    Except ValueFault Amounts := do
  let base ← base.toAmount
  let toll ← toll.toAmount
  let distance ← distance.toAmount
  let base ← methodBase base method distance pallets
  .ok (.onTop base toll)

/-- The amounts of a method of charging, or nothing where an amount is at fault. -/
def methodAmounts (base toll : Value) (method : Method) (pallets distance : Value) : Amounts :=
  match methodAmounts? base toll method pallets distance with
  | .ok a => a
  | .error _ => .nothing

/-- The tariffs that are computed, each with its amounts. -/
inductive Charged : Amounts → Tariff → Prop
  | pallet {w : Surroundings} {base toll pallets formula : Value} {t : Tariff} {a : Amounts}
      (charged : palletTariff w base toll pallets formula = .ok t)
      (amounts : palletAmounts w base toll pallets formula = .ok a) : Charged a t
  | context (w : Surroundings) (formula : Value) :
      Charged (contextAmounts w formula) (contextTariff w formula)
  | method (base toll : Value) (m : Method) (pallets distance : Value) :
      Charged (methodAmounts base toll m pallets distance)
        (methodTariff base toll m pallets distance)

theorem tariff_nothing : Amounts.nothing.tariff = .zero := by
  have zero : roundMoney 0 = 0 := roundMoney_of_no_cents (by decide)
  simp only [Amounts.tariff, Amounts.nothing, Tariff.rounded, zero]
  rfl

theorem formulaTariff_eq (w : Surroundings) (base toll pallets : Float) (formula : Value) :
    formulaTariff w base toll pallets formula =
        (formulaAmounts w base toll pallets formula).tariff ∧
      (formulaAmounts w base toll pallets formula).Adds := by
  cases mentions : formula.mentions? Quantity.toll.name with
  | none =>
    simp only [formulaTariff, formulaAmounts, mentions]
    exact ⟨rfl, Amounts.adds_onTop _ _⟩
  | some mentionsToll =>
    simp only [formulaTariff, formulaAmounts, mentions]
    split
    · exact ⟨rfl, Amounts.adds_onTop _ _⟩
    · exact ⟨rfl, Amounts.adds_within _ _⟩

theorem palletTariff_eq (w : Surroundings) (base toll pallets formula : Value) :
    palletTariff w base toll pallets formula =
      (palletAmounts w base toll pallets formula).map Amounts.tariff := by
  unfold palletTariff palletAmounts
  cases base.toAmount with
  | error f => rfl
  | ok b =>
    cases toll.toAmount with
    | error f => rfl
    | ok t =>
      cases pallets.toAmount with
      | error f => rfl
      | ok p => exact congrArg Except.ok (formulaTariff_eq _ _ _ _ _).1

/-- There are amounts behind every tariff of pallets. -/
theorem exists_charged_of_palletTariff {w : Surroundings} {base toll pallets formula : Value}
    {t : Tariff} (charged : palletTariff w base toll pallets formula = .ok t) :
    ∃ a, Charged a t := by
  cases amounts : palletAmounts w base toll pallets formula with
  | error f =>
    rw [palletTariff_eq, amounts] at charged
    cases charged
  | ok a => exact ⟨a, .pallet charged amounts⟩

theorem adds_of_palletAmounts {w : Surroundings} {base toll pallets formula : Value} {a : Amounts}
    (amounts : palletAmounts w base toll pallets formula = .ok a) : a.Adds := by
  simp only [palletAmounts, bind, Except.bind] at amounts
  iterate 3
    split at amounts
    · cases amounts
  cases amounts
  exact (formulaTariff_eq _ _ _ _ _).2

theorem contextTariff_eq (w : Surroundings) (formula : Value) :
    contextTariff w formula = (contextAmounts w formula).tariff ∧
      (contextAmounts w formula).Adds := by
  cases mentions : formula.mentions? Quantity.toll.name with
  | none =>
    simp only [contextTariff, contextAmounts, mentions]
    exact ⟨tariff_nothing.symm, Amounts.adds_nothing⟩
  | some mentionsToll =>
    cases mentionsToll with
    | false =>
      simp only [contextTariff, contextAmounts, mentions]
      exact ⟨rfl, Amounts.adds_within _ _⟩
    | true =>
      cases amount : (w.context.standard .toll).toAmount with
      | ok toll =>
        simp only [contextTariff, contextAmounts, mentions, amount]
        exact ⟨rfl, Amounts.adds_within _ _⟩
      | error f =>
        simp only [contextTariff, contextAmounts, mentions, amount]
        exact ⟨tariff_nothing.symm, Amounts.adds_nothing⟩

theorem methodTariff?_eq (base toll : Value) (m : Method) (pallets distance : Value) :
    methodTariff? base toll m pallets distance =
      (methodAmounts? base toll m pallets distance).map Amounts.tariff := by
  unfold methodTariff? methodAmounts?
  cases base.toAmount with
  | error f => rfl
  | ok b =>
    cases toll.toAmount with
    | error f => rfl
    | ok t =>
      cases distance.toAmount with
      | error f => rfl
      | ok d =>
        simp only [bind, Except.bind]
        cases methodBase b m d pallets <;> rfl

theorem adds_of_methodAmounts? {base toll : Value} {m : Method} {pallets distance : Value}
    {a : Amounts} (amounts : methodAmounts? base toll m pallets distance = .ok a) : a.Adds := by
  simp only [methodAmounts?, bind, Except.bind] at amounts
  iterate 4
    split at amounts
    · cases amounts
  cases amounts
  exact Amounts.adds_onTop _ _

theorem methodTariff_eq (base toll : Value) (m : Method) (pallets distance : Value) :
    methodTariff base toll m pallets distance =
        (methodAmounts base toll m pallets distance).tariff ∧
      (methodAmounts base toll m pallets distance).Adds := by
  cases amounts : methodAmounts? base toll m pallets distance with
  | ok a =>
    simp only [methodTariff, methodAmounts, methodTariff?_eq, amounts, Except.map, true_and]
    exact adds_of_methodAmounts? amounts
  | error f =>
    simp only [methodTariff, methodAmounts, methodTariff?_eq, amounts, Except.map]
    exact ⟨tariff_nothing.symm, Amounts.adds_nothing⟩

/-- The tariff is that of its amounts, and these add up. -/
theorem Charged.tariff_eq {a : Amounts} {t : Tariff} (charged : Charged a t) :
    t = a.tariff ∧ a.Adds := by
  cases charged with
  | pallet charged amounts =>
    rw [palletTariff_eq, amounts] at charged
    exact ⟨(Except.ok.inj charged).symm, adds_of_palletAmounts amounts⟩
  | context w formula => exact contextTariff_eq w formula
  | method base toll m pallets distance => exact methodTariff_eq base toll m pallets distance

/-- **Tariffs add up, but for a cent.**  A tariff is made of three amounts that add up before they are
rounded.  If an account can hold them, then in cents the total is at most one off the sum of base and
toll, and it is the sum if no more than one of the amounts changes when it is rounded. -/
theorem tariff_cents {a : Amounts} {t : Tariff} (charged : Charged a t) (held : a.AreHeld)
    (below : t.IsBelow (10 ^ 12)) :
    t = a.tariff ∧ |t.gap| ≤ 1 ∧ (a.TwoAreWhole → centsIn t.total = centsIn t.base + centsIn t.toll) := by
  obtain ⟨rfl, adds⟩ := charged.tariff_eq
  obtain ⟨small, none⟩ := adds.gap held below
  exact ⟨rfl, small, fun whole => sub_eq_zero.mp (none whole)⟩

/-- Half a cent in the base and half a cent in the toll: both are rounded up, and their sum is not. -/
theorem tariff_cents_of_halves :
    let a := methodAmounts (.float 1.005) (.float 1.005) .fixed .null .null
    let t := methodTariff (.float 1.005) (.float 1.005) .fixed .null .null
    a.AreHeld ∧ t.IsBelow (10 ^ 12) ∧ t.gap = -1 ∧ t = a.tariff ∧ |t.gap| ≤ 1 := by
  have held : (methodAmounts (.float 1.005) (.float 1.005) .fixed .null .null).AreHeld :=
    ⟨⟨by decide +kernel, by decide +kernel⟩, ⟨by decide +kernel, by decide +kernel⟩,
      ⟨by decide +kernel, by decide +kernel⟩⟩
  have below : (methodTariff (.float 1.005) (.float 1.005) .fixed .null .null).IsBelow (10 ^ 12) :=
    ⟨by decide +kernel, by decide +kernel, by decide +kernel⟩
  obtain ⟨same, small, -⟩ := tariff_cents (.method _ _ _ _ _) held below
  exact ⟨held, below, by decide +kernel, same, small⟩

end Haulage
