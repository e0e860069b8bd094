/-
# The price that a simulation tells

A simulation tells its price twice: exactly, as the value of the evaluation, and as the total of the
tariff, rounded to cents.  Both come from one formula in one context.  But the tariff reads the toll of
the context once more, to split it off, and where the toll is an integer beyond the floats
that fails and the tariff is nothing at all; the evaluation takes such a toll for a text and goes on.
Apart from that the two prices are one (`simulation_price`), for items of a batch and for the
answers of the service alike.
-/
import Haulage.Proofs.Report.Strict
import Haulage.Proofs.Tariff.Toll
import Haulage.Request.Endpoint

namespace Haulage

/-! ## 1. Tolls that are no amount -/

/-- Only an integer beyond the floats cannot be read as an amount. -/
theorem Value.exists_toAmount_iff {v : Value} :
    (∃ x, v.toAmount = .ok x) ↔ ¬∃ n, v = .int n ∧ Exact.ofInt? n = none := by
  cases v with
  | int n =>
    cases found : Exact.ofInt? n with
    | none => simp [toAmount, toAmount?, Number.toFloat, Number.toFloat?, found, Except.map]
    | some x => simp [toAmount, toAmount?, Number.toFloat, Number.toFloat?, found, Except.map]
  | _ => exact iff_of_true ⟨_, rfl⟩ (by simp)

/-- The formula mentions a toll that is an integer beyond the floats. -/
def TollTooLarge (c : Context) (s : Text) : Prop :=
  Text.occursIn Quantity.toll.name.toList s = true ∧
    ∃ n, c.standard .toll = .int n ∧ Exact.ofInt? n = none

/-! ## 2. Two prices -/

/-- The tariff and the evaluation tell the same price, unless the toll is too large for a tariff. -/
structure Simulation.PricesAgree (c : Context) (s : Simulation) : Prop where
  total : ¬TollTooLarge c s.formula → s.tariff.total = roundMoney s.evaluation.value
  nothing : TollTooLarge c s.formula → s.tariff = .zero

theorem pricesAgree_of_ofFormula {w : Surroundings} {formula : Text} {s : Simulation}
    (h : Simulation.ofFormula w formula = .ok s) :
    s.formula = formula ∧ s.PricesAgree w.context := by
  cases reported : report w standardEvaluator (.mapping w.context.asVariables) (.text formula) with
  | error f => simp [Simulation.ofFormula, reported, bind, Except.bind] at h
  | ok r =>
    have value : evaluate w (.mapping w.context.asVariables) (.text formula) = r.value := by
      rw [evaluate, reported]
    obtain rfl : ⟨formula, contextTariff w (.text formula), r⟩ = s := by
      simpa [Simulation.ofFormula, reported, bind, Except.bind] using h
    refine ⟨rfl, ?_⟩
    cases mentions : Text.occursIn Quantity.toll.name.toList formula with
    | false =>
      have mentioned : (Value.text formula).mentions? Quantity.toll.name = some false :=
        congrArg some mentions
      refine ⟨fun _ => ?_, fun large => absurd large.1 (by simp [mentions])⟩
      simp only [contextTariff, mentioned, value, Tariff.rounded]
    | true =>
      have mentioned : (Value.text formula).mentions? Quantity.toll.name = some true :=
        congrArg some mentions
      cases amount : (w.context.standard .toll).toAmount with
      | ok toll =>
        have fits := Value.exists_toAmount_iff.mp ⟨toll, amount⟩
        refine ⟨fun _ => ?_, fun large => absurd large.2 fits⟩
        simp only [contextTariff, mentioned, amount, value, Tariff.rounded]
      | error f =>
        have large : TollTooLarge w.context formula :=
          ⟨mentions, not_not.mp fun fits => by
            obtain ⟨x, read⟩ := Value.exists_toAmount_iff.mpr fits
            rw [amount] at read
            cases read⟩
        refine ⟨fun fits => absurd large fits, fun _ => ?_⟩
        simp only [contextTariff, mentioned, amount]

/-! ## 3. Items and requests -/

/-- The context of an item. -/
def itemContext (item : Value) : Except ValueFault Context := do
  let context ← item.getEntry "context" .null
  if context.isTruthy then Context.ofValue context else .ok .empty

theorem exists_of_bind {α β : Type} {x : Except ValueFault α} {f : α → Except ValueFault β} {b : β}
    (h : (x >>= f) = .ok b) : ∃ a, x = .ok a ∧ f a = .ok b := by
  cases x with
  | error e => cases h
  | ok a => exact ⟨a, rfl, h⟩

theorem exists_of_ofItem {settings : Settings} {clock : Moment} {item : Value} {s : Simulation}
    (h : Simulation.ofItem settings clock item = .ok s) :
    ∃ formula c, item.getEntry "formula" .null = .ok (.text formula) ∧ itemContext item = .ok c ∧
      Simulation.ofFormula ⟨settings, c, clock⟩ formula = .ok s := by
  obtain ⟨v, text, h⟩ := exists_of_bind h
  split at h
  · rename_i formula
    obtain ⟨context, there, h⟩ := exists_of_bind h
    have context' (c : Except ValueFault Context)
        (chosen : (if context.isTruthy then Context.ofValue context else .ok .empty) = c) :
        itemContext item = c := by
      rw [itemContext, there, ← chosen]
      rfl
    by_cases truthy : context.isTruthy = true
    · simp only [truthy, if_true] at h context'
      obtain ⟨c, made, h⟩ := exists_of_bind h
      exact ⟨formula, c, text, context' _ made, h⟩
    · simp only [truthy, Bool.false_eq_true, if_false] at h context'
      exact ⟨formula, .empty, text, context' _ rfl, h⟩
  · cases h

theorem exists_of_respond {settings : Settings} {clock : Moment} {authenticated : Bool}
    {verb : String} {body : Value}
    (h : (Endpoint.simulate.respond settings clock authenticated verb body).status = 200) :
    ∃ r s, Endpoint.readBody (SimulationRequest.read settings) body = .ok r ∧
      Simulation.ofFormula ⟨settings, r.context, clock⟩ r.formula = .ok s ∧
      Endpoint.simulate.respond settings clock authenticated verb body = .success
        [("data", .record [("tariff", s.tariff.toValue), ("evaluation", s.evaluation.toValue)])] := by
  unfold Endpoint.respond at h ⊢
  by_cases known : authenticated = true
  · by_cases post : verb = "POST"
    · subst known post
      simp only [Bool.not_true, Bool.false_eq_true, bne_self_eq_false, if_false] at h ⊢
      rw [Endpoint.answer, Endpoint.answerWith] at h ⊢
      cases read : Endpoint.readBody (SimulationRequest.read settings) body with
      | error e =>
        rw [read] at h
        cases h
      | ok r =>
        rw [read] at h
        dsimp only at h ⊢
        rw [Endpoint.answerSimulation] at h ⊢
        cases made : Simulation.ofFormula ⟨settings, r.context, clock⟩ r.formula with
        | error f =>
          rw [made] at h
          cases h
        | ok s => exact ⟨r, s, rfl, made, rfl⟩
    · simp [known, post, Response.denial] at h
  · simp [known, Response.denial] at h

/-- **A simulation tells one price.**  For every item that is simulated, and in every answer of the
service to a request for a simulation, the total of the tariff is the value of the evaluation, rounded
to money, unless the formula mentions a toll that is an integer beyond the floats; then the tariff is
nothing. -/
theorem simulation_price (settings : Settings) (clock : Moment) :
    (∀ item s, Simulation.ofItem settings clock item = .ok s →
      ∃ c, itemContext item = .ok c ∧ item.getEntry "formula" .null = .ok (.text s.formula) ∧
        s.PricesAgree c) ∧
    ∀ authenticated verb body,
      (Endpoint.simulate.respond settings clock authenticated verb body).status = 200 →
      ∃ (r : SimulationRequest) (s : Simulation),
        Endpoint.readBody (SimulationRequest.read settings) body = .ok r ∧
        Endpoint.simulate.respond settings clock authenticated verb body = .success
          [("data", .record [("tariff", s.tariff.toValue), ("evaluation", s.evaluation.toValue)])] ∧
        s.formula = r.formula ∧ s.PricesAgree r.context := by
  refine ⟨fun item s made => ?_, fun authenticated verb body success => ?_⟩
  · obtain ⟨formula, c, text, context, made⟩ := exists_of_ofItem made
    obtain ⟨rfl, agree⟩ := pricesAgree_of_ofFormula made
    exact ⟨c, context, text, agree⟩
  · obtain ⟨r, s, read, made, answer⟩ := exists_of_respond success
    obtain ⟨same, agree⟩ := pricesAgree_of_ofFormula made
    exact ⟨r, s, read, answer, same, agree⟩

/-- A toll of ten to the power of 309 leaves nothing of the tariff, whatever the evaluation comes
to. -/
theorem simulation_price_of_large_toll :
    let item := Value.record [("formula", .ofString "SI(1>0;5;Peaje)"),
      ("context", .record [("Peaje", .int (10 ^ 309))])]
    ∃ s c, Simulation.ofItem .standard Surroundings.bare.clock item = .ok s ∧
      itemContext item = .ok c ∧ s.PricesAgree c ∧ TollTooLarge c s.formula ∧ s.tariff = .zero := by
  intro item
  have runs : (Simulation.ofItem .standard Surroundings.bare.clock item).isOk = true := by
    decide +kernel
  cases made : Simulation.ofItem .standard Surroundings.bare.clock item with
  | error f =>
    rw [made] at runs
    cases runs
  | ok s =>
    obtain ⟨c, context, text, agree⟩ := (simulation_price _ _).1 item s made
    obtain rfl : Context.ofEntries [("Peaje".toList, .int (10 ^ 309))] = c :=
      Except.ok.inj context
    have formula : "SI(1>0;5;Peaje)".toList = s.formula := Value.text.inj (Except.ok.inj text)
    have beyond : Exact.ofInt? (10 ^ 309) = none := by decide +kernel
    have large : TollTooLarge (.ofEntries [("Peaje".toList, .int (10 ^ 309))]) s.formula :=
      ⟨formula ▸ (by decide), 10 ^ 309, rfl, beyond⟩
    exact ⟨s, _, rfl, context, agree, large, agree.nothing large⟩

end Haulage
