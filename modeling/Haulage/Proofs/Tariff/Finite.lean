/-
# Every tariff is answered, and in finite amounts

A tariff is rounded to money at the end, and money is finite whatever it is rounded from; so no infinity
of a formula or of an addition is left in it.  That a tariff comes about at all is another matter.  A
value of any kind counts as an amount, with zero for what says no number, but for one: an integer from
`floatLimit` on has no float near it, and turning it into one is at fault.  Contexts, methods and routes
answer that fault with nothing to charge.  A pallet tariff does not: it reads its three amounts before
it has anything to fall back to, and the fault escapes (`tariffs_finite`).
-/
import Haulage.Proofs.Number.Limit
import Haulage.Proofs.Request.Answer

namespace Haulage

/-! ## 1. Amounts -/

/-- The value is an integer that no float is near. -/
def Value.IsBeyondFloats (v : Value) : Prop := ∃ n, v = .int n ∧ floatLimit ≤ n.natAbs

namespace Value

theorem finite_getD_finite? (x : Float) : ((finite? x).getD 0).isFinite = true := by
  unfold finite?
  split
  · assumption
  · exact isFinite_zero

/-- A value counts as a finite amount, unless it is beyond the floats. -/
theorem ensures_toAmount (v : Value) :
    Ensures (fun f => f = .integerTooLarge ∧ v.IsBeyondFloats)
      (fun x => x.isFinite = true ∧ ¬v.IsBeyondFloats) v.toAmount := by
  have near (other : ∀ n, v ≠ .int n) : ¬v.IsBeyondFloats := fun ⟨n, same, _⟩ => other n same
  cases v with
  | int n =>
    cases found : Exact.ofInt? n with
    | none =>
      have fault : (int n).toAmount = .error .integerTooLarge := by
        simp [toAmount, toAmount?, Number.toFloat, Number.toFloat?, found, Except.map]
      rw [fault]
      exact ⟨rfl, n, rfl, ofInt?_eq_none_iff.mp found⟩
    | some x =>
      have amount : (int n).toAmount = .ok ((finite? x).getD 0) := by
        simp [toAmount, toAmount?, Number.toFloat, Number.toFloat?, found, Except.map]
      rw [amount]
      refine ⟨finite_getD_finite? x, ?_⟩
      rintro ⟨m, same, large⟩
      cases same
      rw [ofInt?_eq_none_iff.mpr large] at found
      cases found
  | bool b =>
    have finite : (if b then 1 else 0 : Float).isFinite = true := by cases b <;> rfl
    exact ⟨finite, near (by simp)⟩
  | float x => exact ⟨finite_getD_finite? x, near (by simp)⟩
  | text s =>
    refine ⟨?_, near (by simp)⟩
    cases readFloat? (s.strip.replaceChar ',' '.') with
    | none => exact isFinite_zero
    | some x => exact finite_getD_finite? x
  | null | list | mapping | decimal | moment | date => exact ⟨isFinite_zero, near (by simp)⟩

end Value

/-! ## 2. Tariffs -/

/-- The three amounts of the tariff are finite. -/
structure Tariff.IsFinite (t : Tariff) : Prop where
  base : t.base.isFinite = true
  toll : t.toll.isFinite = true
  total : t.total.isFinite = true

theorem Amounts.isFinite_tariff (a : Amounts) : a.tariff.IsFinite where
  base := isFinite_roundMoney_of_any _
  toll := isFinite_roundMoney_of_any _
  total := isFinite_roundMoney_of_any _

/-- One of the amounts of a pallet tariff is beyond the floats. -/
def AmountBeyond (base toll pallets : Value) : Prop :=
  base.IsBeyondFloats ∨ toll.IsBeyondFloats ∨ pallets.IsBeyondFloats

/-- Where there is one fault only, and a condition for it, the condition brings the fault about. -/
theorem Ensures.eq_error {ε α : Type} {f : ε} {P : Prop} {good : α → Prop} {r : Except ε α}
    (h : Ensures (fun g => g = f ∧ P) (fun a => good a ∧ ¬P) r) (holds : P) : r = .error f := by
  cases r with
  | error g => rw [h.1]
  | ok a => exact absurd holds h.2

/-- The amounts of a pallet tariff are read one by one, and one beyond the floats is the only fault. -/
theorem ensures_palletAmounts (w : Surroundings) (base toll pallets formula : Value) :
    Ensures (fun f => f = .integerTooLarge ∧ AmountBeyond base toll pallets)
      (fun _ => ¬AmountBeyond base toll pallets) (palletAmounts w base toll pallets formula) := by
  unfold palletAmounts
  have readBase := base.ensures_toAmount
  have readToll := toll.ensures_toAmount
  have readPallets := pallets.ensures_toAmount
  cases first : base.toAmount with
  | error f =>
    rw [first] at readBase
    exact ⟨readBase.1, .inl readBase.2⟩
  | ok b =>
    cases second : toll.toAmount with
    | error f =>
      rw [second] at readToll
      exact ⟨readToll.1, .inr (.inl readToll.2)⟩
    | ok t =>
      cases third : pallets.toAmount with
      | error f =>
        rw [third] at readPallets
        exact ⟨readPallets.1, .inr (.inr readPallets.2)⟩
      | ok p =>
        rw [first] at readBase
        rw [second] at readToll
        rw [third] at readPallets
        rintro (beyond | beyond | beyond)
        · exact readBase.2 beyond
        · exact readToll.2 beyond
        · exact readPallets.2 beyond

/-- A pallet tariff is finite, or one of its amounts is beyond the floats. -/
theorem ensures_palletTariff (w : Surroundings) (base toll pallets formula : Value) :
    Ensures (fun f => f = .integerTooLarge ∧ AmountBeyond base toll pallets)
      (fun t => t.IsFinite ∧ ¬AmountBeyond base toll pallets)
      (palletTariff w base toll pallets formula) := by
  rw [palletTariff_eq]
  exact (ensures_palletAmounts w base toll pallets formula).map
    fun a near => ⟨a.isFinite_tariff, near⟩

theorem Tariff.isFinite_zero : Tariff.zero.IsFinite := tariff_nothing ▸ Amounts.nothing.isFinite_tariff

theorem isFinite_tariffIn (settings : Settings) (clock : Moment) (context : Option Context)
    (formula : Value) : (tariffIn settings clock context formula).IsFinite := by
  cases context with
  | none => exact Tariff.isFinite_zero
  | some context =>
    rw [tariffIn, (contextTariff_eq _ formula).1]
    exact Amounts.isFinite_tariff _

theorem isFinite_methodTariff (base toll : Value) (method : Method) (pallets distance : Value) :
    (methodTariff base toll method pallets distance).IsFinite := by
  rw [(methodTariff_eq base toll method pallets distance).1]
  exact Amounts.isFinite_tariff _

/-! ## 3. Routes -/

/-- All amounts of the price are finite, those of the extras too. -/
structure RoutePrice.IsFinite (p : RoutePrice) : Prop where
  base : p.base.isFinite = true
  toll : p.toll.isFinite = true
  extras : ∀ e ∈ p.extras, e.amount.isFinite = true
  extrasTotal : p.extrasTotal.isFinite = true
  total : p.total.isFinite = true

theorem RoutePrice.isFinite_zero : RoutePrice.zero.IsFinite :=
  ⟨Haulage.isFinite_zero, Haulage.isFinite_zero, List.forall_mem_nil _, Haulage.isFinite_zero,
    Haulage.isFinite_zero⟩

theorem RoutePrice.isFinite_ofTariff {t : Tariff} (finite : t.IsFinite) {extras : List Extra}
    (amounts : ∀ e ∈ extras, e.amount.isFinite = true) : (RoutePrice.ofTariff t extras).IsFinite where
  base := finite.base
  toll := finite.toll
  extras := amounts
  extrasTotal := isFinite_roundMoney_of_any _
  total := isFinite_roundMoney_of_any _

/-- What a mapping says that an extra costs is rounded to money. -/
theorem Extra.ensures_ofValue (v : Value) :
    Ensures (fun _ => True) (fun e => e.amount.isFinite = true) (Extra.ofValue v) := by
  cases made : Extra.ofValue v with
  | error f => trivial
  | ok e =>
    obtain ⟨id, -, made⟩ := exists_of_bind made
    obtain ⟨name, -, made⟩ := exists_of_bind made
    obtain ⟨value, -, made⟩ := exists_of_bind made
    obtain ⟨amount, -, made⟩ := exists_of_bind made
    cases made
    exact isFinite_roundMoney_of_any amount

theorem Route.ensures_tariff (w : Surroundings) (r : Route) :
    Ensures (fun _ => True) Tariff.IsFinite (r.tariff w) := by
  rcases r.tariff_cases w with ⟨a, charged⟩ | ⟨f, fault⟩
  · rw [charged]
    exact a.isFinite_tariff
  · rw [fault]
    trivial

theorem Route.isFinite_price (w : Surroundings) (r : Route) : (r.price w).IsFinite := by
  have priced : Ensures (fun _ => True) RoutePrice.IsFinite (r.price? w) := by
    refine (r.ensures_tariff w).bind fun t finite => ?_
    cases listed : r.extras.items with
    | error f => trivial
    | ok vs =>
      have extras := Ensures.mapM fun v (_ : v ∈ vs) => Extra.ensures_ofValue v
      exact extras.bind fun es amounts => RoutePrice.isFinite_ofTariff finite amounts
  rw [Route.price]
  cases made : r.price? w with
  | error f => exact RoutePrice.isFinite_zero
  | ok p =>
    rw [made] at priced
    exact priced

/-- **Every tariff is answered and finite, but for the fault of a pallet tariff.**  By context, by
method and by route there is always a tariff, whatever kinds of values it is asked with, and all of its
amounts are finite.  So it is by pallets, except with a base, a toll or a number of pallets that is an
integer beyond the floats: then, and only then, there is no tariff. -/
theorem tariffs_finite (w : Surroundings) :
    (∀ base toll pallets formula,
      Ensures (fun f => f = .integerTooLarge ∧ AmountBeyond base toll pallets)
        (fun t => t.IsFinite ∧ ¬AmountBeyond base toll pallets)
        (palletTariff w base toll pallets formula)) ∧
    (∀ context formula, (tariffIn w.settings w.clock context formula).IsFinite) ∧
    (∀ base toll method pallets distance,
      (methodTariff base toll method pallets distance).IsFinite) ∧
    ∀ r : Route, (r.price w).IsFinite :=
  ⟨ensures_palletTariff w, isFinite_tariffIn w.settings w.clock, isFinite_methodTariff,
    Route.isFinite_price w⟩

/-- Ten to the power of 309 is no base for a pallet tariff, and nothing by method. -/
theorem tariffs_finite_of_large_base :
    palletTariff .bare (.int (10 ^ 309)) (.int 10) (.int 5) .null = .error .integerTooLarge ∧
      (methodTariff (.int (10 ^ 309)) (.int 10) .pallet (.int 5) .null).IsFinite := by
  obtain ⟨pallets, -, methods, -⟩ := tariffs_finite .bare
  have beyond : Exact.ofInt? (10 ^ 309) = none := by decide +kernel
  have large : (Value.int (10 ^ 309)).IsBeyondFloats := ⟨_, rfl, ofInt?_eq_none_iff.mp beyond⟩
  exact ⟨(pallets _ _ _ _).eq_error (.inl large), methods ..⟩

end Haulage
