/-
# Every request is answered

Whatever an authenticated caller posts to an endpoint, the answer is the result (status 200) or what
is wrong with the request (status 400), and no float in it is infinite or undefined
(`respond_safe`).  There is no third way out: the one computation that may fail, the report on a
formula to be simulated, fails only where a formula is too long, and those are refused before.

Floats are kept finite at two places.  Money is rounded, and what is rounded is finite
(`isFinite_roundMoney_of_any`), whatever went in; so a price is finite even if the numbers of the
request were not.  And a stage of an evaluation has a finite value or none (`Stage.Finds.isFinite`), so
the attempts that a report lists are finite like its value.
-/
import Haulage.Proofs.Request.Reading
import Haulage.Proofs.Simulation
import Haulage.Proofs.Tariff.Cents

namespace Haulage

/-! ## 1. Values with finite floats -/

namespace Value

mutual

/-- Are all floats in the value finite? -/
def FloatsFinite : Value → Prop
  | float x => x.isFinite = true
  | list vs => AllFloatsFinite vs
  | mapping entries => EntriesFinite entries
  | null => True
  | bool _ => True
  | int _ => True
  | text _ => True
  | decimal _ => True
  | moment _ => True
  | date _ => True

/-- Are all floats in the values finite? -/
def AllFloatsFinite : List Value → Prop
  | [] => True
  | v :: vs => v.FloatsFinite ∧ AllFloatsFinite vs

/-- Are all floats in the entries finite? -/
def EntriesFinite : List (Text × Value) → Prop
  | [] => True
  | (_, v) :: entries => v.FloatsFinite ∧ EntriesFinite entries

end

theorem floatsFinite_list {vs : List Value} (h : ∀ v ∈ vs, v.FloatsFinite) :
    (list vs).FloatsFinite := by
  induction vs with
  | nil => exact trivial
  | cons v vs ih =>
    obtain ⟨first, rest⟩ := List.forall_mem_cons.mp h
    exact ⟨first, ih rest⟩

theorem floatsFinite_mapping_iff {entries : List (Text × Value)} :
    (mapping entries).FloatsFinite ↔ ∀ entry ∈ entries, entry.2.FloatsFinite := by
  induction entries with
  | nil => simp [FloatsFinite, EntriesFinite]
  | cons entry entries ih =>
    rw [List.forall_mem_cons, ← ih]
    rfl

theorem floatsFinite_record {entries : List (String × Value)}
    (h : ∀ entry ∈ entries, entry.2.FloatsFinite) : (record entries).FloatsFinite := by
  refine floatsFinite_mapping_iff.mpr fun entry mem => ?_
  obtain ⟨entry', mem', rfl⟩ := List.mem_map.mp mem
  exact h entry' mem'

theorem floatsFinite_texts (ss : List Text) : (texts ss).FloatsFinite := by
  refine floatsFinite_list fun v mem => ?_
  obtain ⟨s, -, rfl⟩ := List.mem_map.mp mem
  exact trivial

theorem floatsFinite_wordings {α : Type} (xs : List α) (wording : α → String) :
    (list (xs.map fun x => .ofString (wording x))).FloatsFinite := by
  refine floatsFinite_list fun v mem => ?_
  obtain ⟨x, -, rfl⟩ := List.mem_map.mp mem
  exact trivial

end Value

mutual

/-- A rejection has no floats. -/
theorem Rejection.floatsFinite_toValue : (r : Rejection) → r.toValue.FloatsFinite
  | .messages wordings => Value.floatsFinite_wordings wordings id
  | .parts entries => Rejection.entriesFinite_toEntries entries

theorem Rejection.entriesFinite_toEntries :
    (entries : List (Text × Rejection)) → Value.EntriesFinite (toEntries entries)
  | [] => trivial
  | (_, r) :: entries => ⟨r.floatsFinite_toValue, entriesFinite_toEntries entries⟩

end

/-! ## 2. Prices -/

/-- **Money is finite**, whatever it is rounded from. -/
theorem isFinite_roundMoney_of_any (x : Float) : (roundMoney x).isFinite = true := by
  by_cases held : IsHeld x
  · exact isFinite_roundMoney held
  · have nothing : roundMoney x = 0 := by
      rw [roundMoney]
      split
      · rename_i finite
        exact if_pos (.inr (not_lt.mp fun digits => held ⟨finite, digits⟩))
      · rfl
    rw [nothing]
    exact isFinite_zero

theorem Amounts.floatsFinite_tariff (a : Amounts) : a.tariff.toValue.FloatsFinite :=
  ⟨isFinite_roundMoney_of_any _, isFinite_roundMoney_of_any _, isFinite_roundMoney_of_any _, trivial⟩

/-- Extras that were read have a price each, and their amounts are money. -/
theorem exists_extras {vs : List Value} (read : ∀ v ∈ vs, IsReadExtra v) :
    ∃ es, vs.mapM Extra.ofValue = .ok es ∧ ∀ e ∈ es, e.toValue.FloatsFinite := by
  induction vs with
  | nil => exact ⟨[], rfl, List.forall_mem_nil _⟩
  | cons v vs ih =>
    obtain ⟨first, rest⟩ := List.forall_mem_cons.mp read
    obtain ⟨es, made, finite⟩ := ih rest
    obtain ⟨e, one, finite'⟩ : ∃ e, Extra.ofValue v = .ok e ∧ e.toValue.FloatsFinite := by
      obtain ⟨id, name, amount, rfl⟩ := first
      cases id with
      | none => exact ⟨_, rfl, trivial, trivial, isFinite_roundMoney_of_any _, trivial⟩
      | some s => exact ⟨_, rfl, trivial, trivial, isFinite_roundMoney_of_any _, trivial⟩
    exact ⟨e :: es, by rw [List.mapM_cons, one, made]; rfl, List.forall_mem_cons.mpr ⟨finite', finite⟩⟩

theorem RoutePrice.floatsFinite_ofTariff (a : Amounts) {extras : List Extra}
    (finite : ∀ e ∈ extras, e.toValue.FloatsFinite) :
    (RoutePrice.ofTariff a.tariff extras).toValue.FloatsFinite := by
  have listed : (Value.list (extras.map Extra.toValue)).FloatsFinite :=
    Value.floatsFinite_list (List.forall_mem_map.mpr finite)
  exact ⟨isFinite_roundMoney_of_any _, isFinite_roundMoney_of_any _, listed,
    isFinite_roundMoney_of_any _, isFinite_roundMoney_of_any _, trivial⟩

theorem RoutePrice.floatsFinite_zero : RoutePrice.zero.toValue.FloatsFinite :=
  ⟨isFinite_zero, isFinite_zero, trivial, isFinite_zero, isFinite_zero, trivial⟩

/-- A route is charged by amounts, or something in it is at fault. -/
theorem Route.tariff_cases (w : Surroundings) (r : Route) :
    (∃ a : Amounts, r.tariff w = .ok a.tariff) ∨ ∃ f, r.tariff w = .error f := by
  rw [Route.tariff]
  split
  · rw [palletTariff_eq]
    cases palletAmounts w r.base r.toll r.pallets r.formula with
    | error f => exact .inr ⟨f, rfl⟩
    | ok a => exact .inl ⟨a, rfl⟩
  · exact .inl ⟨_, congrArg Except.ok (methodTariff_eq ..).1⟩

/-- Extras that were read are added to whatever the route is charged. -/
theorem Route.exists_price {w : Surroundings} {r : Route} {extras : List Value}
    (listed : r.extras = .list extras) (read : ∀ v ∈ extras, IsReadExtra v) {a : Amounts}
    (charged : r.tariff w = .ok a.tariff) :
    ∃ es, r.price w = .ofTariff a.tariff es ∧ ∀ e ∈ es, e.toValue.FloatsFinite := by
  obtain ⟨es, made, finite⟩ := exists_extras read
  refine ⟨es, ?_, finite⟩
  have items : r.extras.items = .ok extras := by rw [listed]; rfl
  have priced : r.price? w = .ok (.ofTariff a.tariff es) := by
    simp only [Route.price?, charged, items, made, bind, Except.bind]
  rw [Route.price, priced]

/-- The price of a route with extras that were read is finite. -/
theorem Route.floatsFinite_price (w : Surroundings) {r : Route} {extras : List Value}
    (listed : r.extras = .list extras) (read : ∀ v ∈ extras, IsReadExtra v) :
    (r.price w).toValue.FloatsFinite := by
  rcases r.tariff_cases w with ⟨a, charged⟩ | ⟨f, fault⟩
  · obtain ⟨es, priced, finite⟩ := Route.exists_price listed read charged
    rw [priced]
    exact RoutePrice.floatsFinite_ofTariff a finite
  · have priced : r.price? w = .error f := by simp only [Route.price?, fault, bind, Except.bind]
    rw [Route.price, priced]
    exact RoutePrice.floatsFinite_zero

/-! ## 3. Reports -/

/-- A stage that has a value has a finite one. -/
def StagesFinite {ν : Type} (stages : List (ν × (Unit → Except String Float))) : Prop :=
  ∀ stage ∈ stages, ∀ v, stage.2 () = .ok v → v.isFinite = true

/-- Does the attempt have a finite value, or none? -/
def AttemptFinite {ν : Type} (a : Attempt ν Float) : Prop :=
  ∀ v, a.value? = some v → v.isFinite = true

theorem attemptFinite_of_runStages {ν : Type} {stages : List (ν × (Unit → Except String Float))}
    (finite : StagesFinite stages) : ∀ a ∈ (runStages stages).attempts, AttemptFinite a := by
  induction stages with
  | nil => exact List.forall_mem_nil _
  | cons first rest ih =>
    obtain ⟨name, stage⟩ := first
    obtain ⟨here, later⟩ := List.forall_mem_cons.mp finite
    rw [runStages]
    cases outcome : stage () with
    | ok v =>
      refine List.forall_mem_singleton.mpr fun u value => ?_
      obtain rfl : v = u := Option.some.inj value
      exact here v outcome
    | error e =>
      exact List.forall_mem_cons.mpr
        ⟨fun v value => absurd value (Option.some_ne_none v).symm, ih later⟩

theorem stagesFinite_formulaStages (inputs : Value) (prepared : Except Fault Text) :
    StagesFinite (formulaStages inputs prepared) := by
  intro stage mem v h
  simp only [formulaStages, List.mem_cons, List.not_mem_nil, or_false] at mem
  rcases mem with rfl | rfl | rfl
  · have finds : Stage.primary.Finds inputs prepared v := h
    exact finds.isFinite
  · have finds : Stage.alternative.Finds inputs prepared v := h
    exact finds.isFinite
  · have finds : Stage.basic.Finds inputs prepared v := h
    exact finds.isFinite

theorem Attempt.floatsFinite_toValue {a : Attempt Stage Float} (finite : AttemptFinite a) :
    (Attempt.toValue a).FloatsFinite := by
  obtain ⟨stage, outcome⟩ := a
  cases outcome with
  | error e => exact ⟨trivial, trivial, trivial, trivial⟩
  | ok v => exact ⟨trivial, finite v rfl, trivial, trivial⟩

theorem attempts_reportOf (prepared : Except Fault Text) (trial : Trial Stage Float) :
    (reportOf prepared trial).attempts = trial.attempts := by
  unfold reportOf
  split <;> rfl

theorem attemptFinite_of_report {w : Surroundings} {inputs formula : Value} {r : Report}
    (h : report w standardEvaluator inputs formula = .ok r) : ∀ a ∈ r.attempts, AttemptFinite a := by
  cases found : formulaText? formula with
  | error f => simp [report, found] at h
  | ok text =>
    cases text with
    | none =>
      obtain rfl : ⟨0, .empty, none, []⟩ = r := by simpa [report, found] using h
      exact List.forall_mem_nil _
    | some s =>
      cases long : isTooLong w s with
      | true =>
        rw [report_of_tooLong found long] at h
        obtain ⟨v, basic, rfl⟩ := map_eq_ok_iff.mp h
        refine List.forall_mem_cons.mpr
          ⟨fun v value => absurd value (Option.some_ne_none v).symm,
            List.forall_mem_singleton.mpr fun u value => ?_⟩
        obtain rfl : v = u := Option.some.inj value
        exact isFinite_of_basicComputation basic
      | false =>
        rw [report_of_stages found long] at h
        cases h
        rw [attempts_reportOf]
        exact attemptFinite_of_runStages (stagesFinite_formulaStages _ _)

theorem Report.floatsFinite_toValue {w : Surroundings} {inputs formula : Value} {r : Report}
    (h : report w standardEvaluator inputs formula = .ok r) : r.toValue.FloatsFinite := by
  have attempts : (Value.list (r.attempts.map Attempt.toValue)).FloatsFinite :=
    Value.floatsFinite_list (List.forall_mem_map.mpr fun a mem =>
      Attempt.floatsFinite_toValue (attemptFinite_of_report h a mem))
  have expression : ((r.expression.map Value.text).getD .null).FloatsFinite := by
    cases r.expression <;> exact trivial
  exact ⟨isFinite_of_report h, trivial, expression, trivial, attempts, trivial⟩

/-- There is a report on every text that is not too long. -/
theorem exists_report_of_short {w : Surroundings} {s : Text} (short : isTooLong w s = false)
    (inputs : Value) : ∃ r, report w standardEvaluator inputs (.text s) = .ok r := by
  by_cases blank : s.strip = []
  · exact ⟨⟨0, .empty, none, []⟩, by
      cases s <;> simp [report, formulaText?, Value.isTruthy, blank]⟩
  · exact ⟨_, report_of_stages (formulaText?_text blank) short⟩

/-! ## 4. Answers -/

/-- The answer is a result or a refusal, and has no infinite or undefined float. -/
structure Response.IsSafe (a : Response) : Prop where
  status : a.status = 200 ∨ a.status = 400
  floats : a.body.FloatsFinite

theorem Response.isSafe_success {entries : List (String × Value)}
    (finite : ∀ entry ∈ entries, entry.2.FloatsFinite) : (Response.success entries).IsSafe :=
  ⟨.inl rfl, Value.floatsFinite_record (List.forall_mem_cons.mpr ⟨trivial, finite⟩)⟩

/-- An endpoint is safe if its answers to the requests that can be read are. -/
theorem Endpoint.isSafe_answerWith {α : Type} {read : Reader α} {answer : α → Response} {body : Value}
    (safe : ∀ r, Endpoint.readBody read body = .ok r → (answer r).IsSafe) :
    (Endpoint.answerWith read answer body).IsSafe := by
  rw [Endpoint.answerWith]
  cases request : Endpoint.readBody read body with
  | ok r => exact safe r request
  | error r => exact ⟨.inr rfl, r.floatsFinite_toValue⟩

theorem Analysis.floatsFinite_toValue (a : Analysis) : a.toValue.FloatsFinite :=
  ⟨trivial, Value.floatsFinite_texts _, Value.floatsFinite_texts _, Value.floatsFinite_texts _,
    trivial, trivial, trivial, trivial, Value.floatsFinite_wordings _ _,
    Value.floatsFinite_wordings _ _, Value.floatsFinite_wordings _ _, trivial⟩

theorem Endpoint.isSafe_answerValidation (settings : Settings) (r : ValidationRequest) :
    (Endpoint.answerValidation settings r).IsSafe := by
  refine Response.isSafe_success
    (List.forall_mem_cons.mpr ⟨trivial, List.forall_mem_singleton.mpr ?_⟩)
  exact ⟨trivial, trivial, Value.floatsFinite_texts _, Analysis.floatsFinite_toValue _, trivial⟩

/-- A route is priced whatever its numbers are, also where they are infinite or undefined. -/
theorem Endpoint.isSafe_answerRoute (settings : Settings) (clock : Moment) {r : RouteRequest}
    (read : ∀ v ∈ r.extras, IsReadExtra v) : (Endpoint.answerRoute settings clock r).IsSafe :=
  Response.isSafe_success (List.forall_mem_singleton.mpr (Route.floatsFinite_price _ rfl read))

theorem Endpoint.isSafe_answerSimulation {settings : Settings} (clock : Moment)
    {r : SimulationRequest} (short : ¬settings.maxFormulaLength < r.formula.length) :
    (Endpoint.answerSimulation settings clock r).IsSafe := by
  obtain ⟨evaluation, reported⟩ := exists_report_of_short (w := ⟨settings, r.context, clock⟩)
    (decide_eq_false short) (.mapping r.context.asVariables)
  have simulated : Simulation.ofFormula ⟨settings, r.context, clock⟩ r.formula =
      .ok ⟨r.formula, contextTariff ⟨settings, r.context, clock⟩ (.text r.formula), evaluation⟩ := by
    simp only [Simulation.ofFormula, reported, bind, Except.bind]
  rw [Endpoint.answerSimulation, simulated]
  refine Response.isSafe_success (List.forall_mem_singleton.mpr ?_)
  have tariff := (contextAmounts ⟨settings, r.context, clock⟩ (.text r.formula)).floatsFinite_tariff
  rw [← (contextTariff_eq _ _).1] at tariff
  exact ⟨tariff, Report.floatsFinite_toValue reported, trivial⟩

/-- **Every request is answered**, with its result or with what is wrong with it, and no float in the
answer is infinite or undefined.  For a route that holds also of numbers that no reader lets through:
the price of a route is finite whatever its numbers are. -/
theorem respond_safe (settings : Settings) (clock : Moment) :
    (∀ (e : Endpoint) (body : Value), (e.respond settings clock true "POST" body).IsSafe) ∧
      ∀ r : RouteRequest, (∀ v ∈ r.extras, IsReadExtra v) →
        (Endpoint.answerRoute settings clock r).IsSafe := by
  refine ⟨fun e body => ?_, fun r read => Endpoint.isSafe_answerRoute settings clock read⟩
  have answered : e.respond settings clock true "POST" body = e.answer settings clock body := rfl
  rw [answered]
  cases e with
  | validate =>
    exact Endpoint.isSafe_answerWith fun r _ => Endpoint.isSafe_answerValidation settings r
  | calculate =>
    refine Endpoint.isSafe_answerWith fun r read => ?_
    obtain ⟨entries, -, fields⟩ := exists_read_route read
    exact Endpoint.isSafe_answerRoute settings clock fields.isReadExtra
  | simulate =>
    exact Endpoint.isSafe_answerWith fun r read =>
      Endpoint.isSafe_answerSimulation clock (not_tooLong_of_read_simulation read)

/-- An undefined base, an infinite toll and an extra of minus infinity. -/
theorem respond_safe_of_infinite :
    let extra := Value.record [("name", .ofString "peaje"), ("value", .float (-1 / 0))]
    let r : RouteRequest := ⟨0 / 0, 1 / 0, 3, [], .pallet, none, [extra]⟩
    (∀ v ∈ r.extras, IsReadExtra v) ∧
      (Endpoint.answerRoute .standard Surroundings.bare.clock r).IsSafe := by
  intro extra r
  have read : ∀ v ∈ r.extras, IsReadExtra v :=
    List.forall_mem_singleton.mpr ⟨none, "peaje".toList, -1 / 0, rfl⟩
  exact ⟨read, (respond_safe .standard Surroundings.bare.clock).2 r read⟩

end Haulage
