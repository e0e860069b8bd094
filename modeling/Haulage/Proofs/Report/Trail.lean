/-
# What a report records

A row of stages is tried from the front, and the trial ends with the first stage that has a value
(`runStages_cases`).  So every attempt but the last has failed, and the last one holds the value.

For the stages of a formula this makes the report an account of the evaluation
(`exists_report_accountsFor`): the stage it names did find the value, and from the expression it
gives.  The value is a finite number on every way to it, also where there is no report at all
(`evaluate_finite`).
-/
import Haulage.Proofs.Formula.Datum
import Haulage.Proofs.Shorthand.Pass
import Haulage.Report.Evaluation

namespace Haulage

/-! ## 1. Rows of stages -/

section

variable {ν α : Type}

/-- The stage has no value, and the attempt tells why. -/
def Attempt.FailureOf (stage : ν × (Unit → Except String α)) (a : Attempt ν α) : Prop :=
  a.stage = stage.1 ∧ ∃ e, stage.2 () = .error e ∧ a.outcome = .error e

theorem Attempt.FailureOf.not_succeeded {stage : ν × (Unit → Except String α)} {a : Attempt ν α}
    (h : a.FailureOf stage) : a.succeeded = false := by
  obtain ⟨-, e, -, outcome⟩ := h
  rw [succeeded, outcome]
  rfl

/-- **The first stage with a value decides.**  The stages before it have failed, and none behind it
was tried; or else all stages have failed. -/
theorem runStages_cases (stages : List (ν × (Unit → Except String α))) :
    (∃ before name stage after failed v, stages = before ++ (name, stage) :: after ∧
      List.Forall₂ (fun s a => Attempt.FailureOf s a) before failed ∧ stage () = .ok v ∧
      runStages stages = ⟨some (name, v), failed ++ [⟨name, .ok v⟩]⟩) ∨
    ∃ failed, List.Forall₂ (fun s a => Attempt.FailureOf s a) stages failed ∧
      runStages stages = ⟨none, failed⟩ := by
  induction stages with
  | nil => exact .inr ⟨[], .nil, rfl⟩
  | cons first rest ih =>
    obtain ⟨name, stage⟩ := first
    rw [runStages]
    cases outcome : stage () with
    | ok v => exact .inl ⟨[], name, stage, rest, [], v, rfl, .nil, outcome, rfl⟩
    | error e =>
      have fails : Attempt.FailureOf (name, stage) (⟨name, .error e⟩ : Attempt ν α) :=
        ⟨rfl, e, outcome, rfl⟩
      rcases ih with ⟨before, name', stage', after, failed, v, rfl, failures, decides, run⟩ |
        ⟨failed, failures, run⟩
      · exact .inl ⟨(name, stage) :: before, name', stage', after, ⟨name, .error e⟩ :: failed, v,
          rfl, .cons fails failures, decides, by rw [run]; rfl⟩
      · exact .inr ⟨⟨name, .error e⟩ :: failed, .cons fails failures, by rw [run]⟩

theorem stages_of_failures {stages : List (ν × (Unit → Except String α))}
    {failed : List (Attempt ν α)}
    (h : List.Forall₂ (fun s a => Attempt.FailureOf s a) stages failed) :
    failed.map (·.stage) = stages.map (·.1) := by
  induction h with
  | nil => rfl
  | cons fails _ ih => rw [List.map_cons, List.map_cons, fails.1, ih]

theorem not_succeeded_of_failures {stages : List (ν × (Unit → Except String α))}
    {failed : List (Attempt ν α)}
    (h : List.Forall₂ (fun s a => Attempt.FailureOf s a) stages failed) :
    ∀ a ∈ failed, a.succeeded = false := by
  induction h with
  | nil => exact List.forall_mem_nil _
  | cons fails _ ih => exact List.forall_mem_cons.mpr ⟨fails.not_succeeded, ih⟩

end

/-! ## 2. Finite values -/

theorem isFinite_zero : (0 : Float).isFinite = true := rfl

/-- The basic computation never leaves the finite numbers. -/
theorem isFinite_basicAmount (data : List (Text × Datum)) : (basicAmount data).isFinite = true := by
  unfold basicAmount
  dsimp only
  split
  · assumption
  · exact isFinite_zero

theorem isFinite_of_basicComputation {inputs : Value} {x : Float}
    (h : basicComputation inputs = .ok x) : x.isFinite = true := by
  rw [basicComputation] at h
  cases ready : normalize inputs with
  | error f => simp [ready, Except.map] at h
  | ok data =>
    obtain rfl : basicAmount data = x := by simpa [ready, Except.map] using h
    exact isFinite_basicAmount data

/-- A text that has a value has a finite one. -/
theorem isFinite_of_evaluateText {s : Text} {x : Float} (h : evaluateText s = .ok x) :
    x.isFinite = true := by
  rcases evaluateText_cases s with ⟨-, run⟩ | ⟨-, run⟩ | ⟨y, run, finite⟩ | ⟨f, run, -⟩
  · simp [run] at h
  · simp [run] at h
  · obtain rfl : y = x := by simpa [run] using h
    exact finite
  · simp [run] at h

theorem standardEvaluator_eq_ok_iff {s : Text} {x : Float} :
    standardEvaluator s = .ok x ↔ evaluateText s = .ok x := by
  rw [standardEvaluator]
  cases evaluateText s <;> simp [Except.mapError]

/-! ## 3. The stages of a formula -/

/-- The stages that are tried for an expression. -/
def formulaStages (inputs : Value) (prepared : Except Fault Text) :
    List (Stage × (Unit → Except String Float)) :=
  [(.primary, fun _ => primaryStage standardEvaluator prepared),
   (.alternative, fun _ => alternativeStage standardEvaluator prepared),
   (.basic, fun _ => basicStage inputs)]

/-- The stages that are tried before this one. -/
def Stage.before : Stage → List Stage
  | primary | empty => []
  | alternative => [.primary]
  | basic => [.primary, .alternative]

section

variable {inputs : Value} {prepared : Except Fault Text} {v : Float}

/-- The stage has found the value. -/
def Stage.Finds (inputs : Value) (prepared : Except Fault Text) (v : Float) : Stage → Prop
  | primary => primaryStage standardEvaluator prepared = .ok v
  | alternative => alternativeStage standardEvaluator prepared = .ok v
  | basic => basicStage inputs = .ok v
  | empty => False

/-- The first two stages find the value of the expression that they leave behind. -/
theorem Stage.Finds.exists_expression {stage : Stage} (h : stage.Finds inputs prepared v)
    (early : stage = .primary ∨ stage = .alternative) :
    ∃ x, lastExpression prepared (some stage) = some x ∧ evaluateText x = .ok v := by
  cases prepared with
  | error f => rcases early with rfl | rfl <;> cases h
  | ok x =>
    rcases early with rfl | rfl
    · exact ⟨x, rfl, standardEvaluator_eq_ok_iff.mp h⟩
    · simp only [Finds, alternativeStage] at h
      split at h
      · cases h
      · exact ⟨simplifyChoices x, rfl, standardEvaluator_eq_ok_iff.mp h⟩

theorem basicStage_eq_ok_iff : basicStage inputs = .ok v ↔ basicComputation inputs = .ok v := by
  rw [basicStage]
  cases basicComputation inputs <;> simp [Except.mapError]

theorem Stage.Finds.isFinite {stage : Stage} (h : stage.Finds inputs prepared v) :
    v.isFinite = true := by
  have early (h' : stage = .primary ∨ stage = .alternative) : v.isFinite = true := by
    obtain ⟨x, -, evaluates⟩ := h.exists_expression h'
    exact isFinite_of_evaluateText evaluates
  cases stage with
  | primary => exact early (.inl rfl)
  | alternative => exact early (.inr rfl)
  | basic => exact isFinite_of_basicComputation (basicStage_eq_ok_iff.mp h)
  | empty => exact h.elim

/-- **One of the stages decides**, or each of them has failed. -/
theorem runStages_formulaStages (inputs : Value) (prepared : Except Fault Text) :
    (∃ (stage : Stage) (v : Float) (failed : List (Attempt Stage Float)),
      runStages (formulaStages inputs prepared) =
        ⟨some (stage, v), failed ++ [⟨stage, .ok v⟩]⟩ ∧
      stage.Finds inputs prepared v ∧ failed.map (·.stage) = stage.before ∧
      ∀ a ∈ failed, a.succeeded = false) ∨
    (∃ e, basicStage inputs = .error e) ∧
      (runStages (formulaStages inputs prepared)).decision = none := by
  rcases runStages_cases (formulaStages inputs prepared) with
    ⟨before, stage, compute, after, failed, v, row, failures, decides, run⟩ |
    ⟨failed, failures, run⟩
  · have names := stages_of_failures failures
    have failed' := not_succeeded_of_failures failures
    -- The stage that decides stands behind none, one or two of the row.
    match before with
    | [] =>
      cases row
      exact .inl ⟨.primary, v, failed, run, decides, names, failed'⟩
    | [_] =>
      cases row
      exact .inl ⟨.alternative, v, failed, run, decides, names, failed'⟩
    | [_, _] =>
      cases row
      exact .inl ⟨.basic, v, failed, run, decides, names, failed'⟩
    | _ :: _ :: _ :: before => simp [formulaStages] at row
  · refine .inr ⟨?_, by rw [run]⟩
    simp only [formulaStages, List.forall₂_cons_left_iff, List.forall₂_nil_left_iff] at failures
    obtain ⟨_, _, -, ⟨_, _, -, ⟨_, _, ⟨-, e, fails, -⟩, -⟩, -⟩, -⟩ := failures
    exact ⟨e, fails⟩

end

section

variable {w : Surroundings} {inputs formula : Value} {s : Text}

theorem formulaText?_text (written : s.strip ≠ []) : formulaText? (.text s) = .ok (some s) := by
  have nonempty : s ≠ [] := by
    rintro rfl
    exact written rfl
  simp [formulaText?, Value.isTruthy, nonempty, written]

/-- A formula that is too long gets its value from the basic computation. -/
theorem report_of_tooLong (found : formulaText? formula = .ok (some s))
    (long : isTooLong w s = true) :
    report w standardEvaluator inputs formula = (basicComputation inputs).map fun v =>
      ⟨v, .basic, none, [⟨.primary, .error (tooLongFault w s).message⟩, ⟨.basic, .ok v⟩]⟩ := by
  rw [report, found]
  dsimp only
  rw [if_pos long]

/-- Any other formula that is not blank gets its value from the stages. -/
theorem report_of_stages (found : formulaText? formula = .ok (some s))
    (short : isTooLong w s = false) :
    report w standardEvaluator inputs formula =
      .ok (reportOf (prepare w inputs formula)
        (runStages (formulaStages inputs (prepare w inputs formula)))) := by
  rw [report, found]
  dsimp only
  rw [if_neg (by simp [short])]
  rfl

end

/-! ## 4. The account of an evaluation -/

/-- The report accounts for the evaluation of a text: it tells what was tried in which order, and
the value is what the stage that it names has found. -/
structure Report.AccountsFor (w : Surroundings) (inputs : Value) (s : Text) (r : Report) : Prop where
  empty_iff : r.stage = .empty ↔ ∀ c ∈ s, isBlank c = true
  of_empty : r.stage = .empty → r.value = 0 ∧ r.attempts = []
  decided : r.stage ≠ .empty →
    ∃ failed, r.attempts = failed ++ [⟨r.stage, .ok r.value⟩] ∧ ∀ a ∈ failed, a.succeeded = false
  tooLong_iff : r.stage ≠ .empty →
    (isTooLong w s = true ↔ r.attempts.map (·.stage) = [.primary, .basic])
  tried : r.stage ≠ .empty → isTooLong w s = false →
    r.attempts.map (·.stage) = [.primary] ∨
      r.attempts.map (·.stage) = [.primary, .alternative] ∨
      r.attempts.map (·.stage) = [.primary, .alternative, .basic]
  finite : r.value.isFinite = true
  degraded_iff : r.degraded = true ↔ r.stage = .alternative ∨ r.stage = .basic
  of_expression : r.stage = .primary ∨ r.stage = .alternative →
    ∃ x, r.expression = some x ∧ evaluateText x = .ok r.value
  of_basic : r.stage = .basic → basicComputation inputs = .ok r.value

theorem Report.degraded_iff (r : Report) :
    r.degraded = true ↔ r.stage = .alternative ∨ r.stage = .basic := by
  rw [degraded]
  cases r.stage <;> simp

section

variable {w : Surroundings} {inputs : Value} {s : Text}

theorem accountsFor_of_blank (blank : s.strip = []) :
    Report.AccountsFor w inputs s ⟨0, .empty, none, []⟩ where
  empty_iff := by simpa using strip_eq_nil_iff.mp blank
  of_empty _ := ⟨rfl, rfl⟩
  decided tried := absurd rfl tried
  tooLong_iff tried := absurd rfl tried
  tried tried := absurd rfl tried
  finite := isFinite_zero
  degraded_iff := Report.degraded_iff _
  of_expression early := by simp at early
  of_basic late := by cases late

theorem accountsFor_of_tooLong (written : s.strip ≠ []) (long : isTooLong w s = true) {v : Float}
    (basic : basicComputation inputs = .ok v) (message : String) :
    Report.AccountsFor w inputs s
      ⟨v, .basic, none, [⟨.primary, .error message⟩, ⟨.basic, .ok v⟩]⟩ where
  empty_iff := by simpa using fun blank => written (strip_eq_nil_iff.mpr blank)
  of_empty blank := by cases blank
  decided _ := ⟨[⟨.primary, .error message⟩], rfl, List.forall_mem_singleton.mpr rfl⟩
  tooLong_iff _ := by simp [long]
  tried _ short := by simp [long] at short
  finite := isFinite_of_basicComputation basic
  degraded_iff := Report.degraded_iff _
  of_expression early := by simp at early
  of_basic _ := basic

theorem accountsFor_of_finds (written : s.strip ≠ []) (short : isTooLong w s = false)
    {prepared : Except Fault Text} {stage : Stage} {v : Float}
    {failed : List (Attempt Stage Float)} (finds : stage.Finds inputs prepared v)
    (names : failed.map (·.stage) = stage.before) (failures : ∀ a ∈ failed, a.succeeded = false) :
    Report.AccountsFor w inputs s
      ⟨v, stage, lastExpression prepared (some stage), failed ++ [⟨stage, .ok v⟩]⟩ := by
  have notEmpty : stage ≠ .empty := by
    rintro rfl
    exact finds
  exact {
    empty_iff := iff_of_false notEmpty fun blank => written (strip_eq_nil_iff.mpr blank)
    of_empty := fun empty => absurd empty notEmpty
    decided := fun _ => ⟨failed, rfl, failures⟩
    tooLong_iff := fun _ => by cases stage <;> simp [short, names, Stage.before]
    tried := fun _ _ => by cases stage <;> simp [names, Stage.before] at notEmpty ⊢
    finite := finds.isFinite
    degraded_iff := Report.degraded_iff _
    of_expression := finds.exists_expression
    of_basic := by
      rintro rfl
      exact basicStage_eq_ok_iff.mp finds }

end

/-- The basic computation has a value where the values of a mapping can be made ready. -/
theorem exists_basicComputation {entries : List (Text × Value)}
    (ready : ∀ entry ∈ entries, ∃ d, Datum.ofValue entry.2 = .ok d) :
    ∃ v, basicComputation (.mapping entries) = .ok v := by
  obtain ⟨data, normalized, -⟩ := exists_normalizeEntries (P := fun _ _ => True) fun entry mem => by
    obtain ⟨d, made⟩ := ready entry mem
    exact ⟨d, made, trivial⟩
  exact ⟨basicAmount data, by rw [basicComputation, normalize_mapping, normalized]; rfl⟩

/-- **A report is an account of the evaluation.**  Where the values of a mapping can be made ready,
there is a report on every text, and it accounts for how the text was evaluated. -/
theorem exists_report_accountsFor (w : Surroundings) {entries : List (Text × Value)}
    (ready : ∀ entry ∈ entries, ∃ d, Datum.ofValue entry.2 = .ok d) (s : Text) :
    ∃ r, report w standardEvaluator (.mapping entries) (.text s) = .ok r ∧
      r.AccountsFor w (.mapping entries) s := by
  obtain ⟨v, basic⟩ := exists_basicComputation ready
  by_cases blank : s.strip = []
  · refine ⟨_, ?_, accountsFor_of_blank blank⟩
    cases s <;> simp [report, formulaText?, Value.isTruthy, blank]
  have found := formulaText?_text blank
  cases long : isTooLong w s with
  | true =>
    refine ⟨_, ?_, accountsFor_of_tooLong blank long basic (tooLongFault w s).message⟩
    rw [report_of_tooLong found long, basic]
    rfl
  | false =>
    rw [report_of_stages found long]
    refine ⟨_, rfl, ?_⟩
    rcases runStages_formulaStages (.mapping entries) (prepare w (.mapping entries) (.text s)) with
      ⟨stage, v, failed, run, finds, names, failures⟩ | ⟨⟨e, fails⟩, -⟩
    · rw [run]
      exact accountsFor_of_finds blank long finds names failures
    · simp [basicStage_eq_ok_iff.mpr basic] at fails

/-- A mapping of an integer and a text, and a formula that computes with both. -/
theorem exists_report_accountsFor_pallets :
    ∃ r, report .bare standardEvaluator
        (.mapping [("Palets".toList, .int 3), ("Zona".toList, .text "norte".toList)])
        (.text "SI(Zona == \"norte\"; Palets * 2; 1)".toList) = .ok r ∧
      r.AccountsFor .bare
        (.mapping [("Palets".toList, .int 3), ("Zona".toList, .text "norte".toList)])
        "SI(Zona == \"norte\"; Palets * 2; 1)".toList := by
  refine exists_report_accountsFor .bare (fun entry mem => ?_) _
  rcases List.mem_pair.mp mem with rfl | rfl
  · exact ⟨.number 3, by rfl⟩
  · exact ⟨.text "norte".toList, by rfl⟩

/-! ## 5. The value of a formula -/

theorem isFinite_of_report {w : Surroundings} {inputs formula : Value} {r : Report}
    (h : report w standardEvaluator inputs formula = .ok r) : r.value.isFinite = true := by
  cases found : formulaText? formula with
  | error f => simp [report, found] at h
  | ok text =>
    cases text with
    | none =>
      obtain rfl : ⟨0, .empty, none, []⟩ = r := by simpa [report, found] using h
      exact isFinite_zero
    | some s =>
      cases long : isTooLong w s with
      | true =>
        rw [report_of_tooLong found long] at h
        cases basic : basicComputation inputs with
        | error f => simp [basic, Except.map] at h
        | ok v =>
          rw [basic] at h
          cases h
          exact isFinite_of_basicComputation basic
      | false =>
        rw [report_of_stages found long] at h
        cases h
        rcases runStages_formulaStages inputs (prepare w inputs formula) with
          ⟨stage, v, failed, run, finds, -⟩ | ⟨-, undecided⟩
        · rw [run]
          exact finds.isFinite
        · rw [reportOf, undecided]
          exact isFinite_zero

/-- Where the basic computation has a value, some stage finds the value of a formula. -/
theorem exists_finds_evaluate {w : Surroundings} {inputs formula : Value} {s : Text}
    (found : formulaText? formula = .ok (some s)) (short : isTooLong w s = false) {x : Float}
    (basic : basicComputation inputs = .ok x) :
    ∃ stage : Stage, stage.Finds inputs (prepare w inputs formula) (evaluate w inputs formula) := by
  rw [evaluate, report_of_stages found short]
  rcases runStages_formulaStages inputs (prepare w inputs formula) with
    ⟨stage, v, failed, run, finds, -⟩ | ⟨⟨e, fails⟩, -⟩
  · rw [run]
    exact ⟨stage, finds⟩
  · simp [basicStage_eq_ok_iff.mpr basic] at fails

/-- **A formula has a finite number as its value**, whatever it is and whatever its variables
are. -/
theorem evaluate_finite (w : Surroundings) (inputs formula : Value) :
    (evaluate w inputs formula).isNaN = false ∧ (evaluate w inputs formula).isInf = false := by
  refine not_isNaN_of_isFinite ?_
  rw [evaluate]
  cases run : report w standardEvaluator inputs formula with
  | ok r => exact isFinite_of_report run
  | error f => exact isFinite_zero

end Haulage
