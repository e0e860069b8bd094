/-
# A strict evaluation and a lenient one

A strict evaluation tries the first two stages of a formula and stops there.  The lenient one tries
the same two and, where both have failed, the basic computation.  What a row of stages comes to is
settled by its front as soon as one of the stages there has a value
(`runStages_append_of_decision`), so the two evaluations agree: a strict report is the lenient report
of a formula that one of the first two stages decides (`reportStrictly_eq_ok_iff`), and a strict
evaluation of any other text fails with the formula's own fault.

The two branch apart in four places: on a blank formula, on one that is too long, on the third
stage, and where no stage has a value.  The last of them needs the basic computation to fail, which
it does only for values that cannot be made ready.  So it is there, and only there, that the values
of the mapping matter (`evaluateStrictly_agrees`).
-/
import Haulage.Proofs.Report.Trail

namespace Haulage

/-! ## 1. Rows of stages, the one in front of the other -/

section

variable {ν α : Type}

/-- A value that is found in front settles the row. -/
theorem runStages_append_of_decision {front back : List (ν × (Unit → Except String α))}
    (decided : (runStages front).decision ≠ none) :
    runStages (front ++ back) = runStages front := by
  induction front with
  | nil => exact absurd rfl decided
  | cons first rest ih =>
    obtain ⟨name, stage⟩ := first
    rw [List.cons_append, runStages, runStages]
    cases outcome : stage () with
    | ok v => rfl
    | error e =>
      rw [runStages, outcome] at decided
      dsimp only
      rw [ih decided]

/-- Where none is found in front, the row behind it decides. -/
theorem decision_append_of_none {front back : List (ν × (Unit → Except String α))}
    (undecided : (runStages front).decision = none) :
    (runStages (front ++ back)).decision = (runStages back).decision := by
  induction front with
  | nil => rfl
  | cons first rest ih =>
    obtain ⟨name, stage⟩ := first
    rw [List.cons_append, runStages]
    cases outcome : stage () with
    | ok v => simp [runStages, outcome] at undecided
    | error e =>
      rw [runStages, outcome] at undecided
      exact ih undecided

end

/-! ## 2. The two evaluations -/

/-- The stages that need no basic computation. -/
def Stage.IsEarly (stage : Stage) : Prop := stage = .primary ∨ stage = .alternative

theorem Stage.not_isEarly_iff {stage : Stage} :
    ¬ stage.IsEarly ↔ stage = .empty ∨ stage = .basic := by
  cases stage <;> simp [IsEarly]

/-- The stages of a strict evaluation. -/
def strictStages (evaluator : Evaluator) (prepared : Except Fault Text) :
    List (Stage × (Unit → Except String Float)) :=
  [(.primary, fun _ => primaryStage evaluator prepared),
   (.alternative, fun _ => alternativeStage evaluator prepared)]

section

variable {evaluator : Evaluator} {prepared : Except Fault Text} {stage : Stage} {v : Float}

/-- What decides among the strict stages is one of the first two. -/
theorem isEarly_of_decision
    (decided : (runStages (strictStages evaluator prepared)).decision = some (stage, v)) :
    stage.IsEarly := by
  rcases runStages_cases (strictStages evaluator prepared) with
    ⟨before, name, compute, after, failed, x, row, -, -, run⟩ | ⟨failed, -, run⟩
  · obtain ⟨rfl, rfl⟩ : name = stage ∧ x = v := by simpa [run] using decided
    have mem : (name, compute) ∈ strictStages evaluator prepared := by simp [row]
    rcases List.mem_pair.mp mem with h | h
    · exact .inl (congrArg Prod.fst h)
    · exact .inr (congrArg Prod.fst h)
  · simp [run] at decided

/-- The basic computation alone decides nothing early. -/
theorem not_isEarly_of_basic {inputs : Value} (decided :
    (runStages [(Stage.basic, fun _ => basicStage inputs)]).decision = some (stage, v)) :
    ¬ stage.IsEarly := by
  rw [runStages] at decided
  cases outcome : basicStage inputs with
  | ok x =>
    obtain ⟨rfl, -⟩ : Stage.basic = stage ∧ x = v := by simpa [outcome] using decided
    exact Stage.not_isEarly_iff.mpr (.inr rfl)
  | error e => simp [outcome, runStages] at decided

theorem reportOf_stage_of_decision {trial : Trial Stage Float}
    (decided : trial.decision = some (stage, v)) : (reportOf prepared trial).stage = stage := by
  rw [reportOf, decided]

end

section

variable {w : Surroundings} {evaluator : Evaluator} {inputs formula : Value} {s : Text}

theorem report_of_blank (found : formulaText? formula = .ok none) :
    report w evaluator inputs formula = .ok ⟨0, .empty, none, []⟩ := by
  rw [report, found]

/-- What the lenient evaluation of a formula comes to that is not too long: the strict stages, and
behind them the basic computation. -/
theorem report_of_short (found : formulaText? formula = .ok (some s))
    (short : isTooLong w s = false) :
    report w evaluator inputs formula =
      .ok (reportOf (prepare w inputs formula)
        (runStages (strictStages evaluator (prepare w inputs formula) ++
          [(.basic, fun _ => basicStage inputs)]))) := by
  rw [report, found]
  dsimp only
  rw [if_neg (by simp [short])]
  rfl

theorem reportStrictly_of_short (found : formulaText? formula = .ok (some s))
    (short : isTooLong w s = false) :
    reportStrictly w evaluator inputs formula =
      let trial := runStages (strictStages evaluator (prepare w inputs formula))
      if trial.decision.isSome then .ok (reportOf (prepare w inputs formula) trial)
      else .error (.formula (.noStage ((trial.attempts.head?.bind (·.error?)).getD ""))) := by
  rw [reportStrictly, found]
  dsimp only
  rw [if_neg (by simp [short])]
  rfl

/-- The two evaluations of a formula that is neither blank nor too long: either one of the first two
stages decides and the reports are the same, or none of them does and the strict evaluation
fails. -/
theorem reports_of_short (w : Surroundings) (evaluator : Evaluator) (inputs : Value)
    (found : formulaText? formula = .ok (some s)) (short : isTooLong w s = false) :
    (∃ r, r.stage.IsEarly ∧ report w evaluator inputs formula = .ok r ∧
      reportStrictly w evaluator inputs formula = .ok r) ∨
    (∃ r, ¬ r.stage.IsEarly ∧ report w evaluator inputs formula = .ok r) ∧
      ∃ first, reportStrictly w evaluator inputs formula = .error (.formula (.noStage first)) := by
  rw [report_of_short found short, reportStrictly_of_short found short]
  cases decided : (runStages (strictStages evaluator (prepare w inputs formula))).decision with
  | some decision =>
    obtain ⟨stage, v⟩ := decision
    refine .inl ⟨_, ?_, rfl, ?_⟩
    · rw [runStages_append_of_decision (by simp [decided]), reportOf_stage_of_decision decided]
      exact isEarly_of_decision decided
    · rw [runStages_append_of_decision (by simp [decided])]
      simp [decided]
  | none =>
    refine .inr ⟨⟨_, ?_, rfl⟩, _, by simp [decided]; rfl⟩
    cases late : (runStages [(Stage.basic, fun _ => basicStage inputs)]).decision with
    | some decision =>
      obtain ⟨stage, v⟩ := decision
      rw [reportOf_stage_of_decision ((decision_append_of_none decided).trans late)]
      exact not_isEarly_of_basic late
    | none =>
      rw [reportOf, decision_append_of_none decided, late]
      exact Stage.not_isEarly_iff.mpr (.inr rfl)

/-- **A strict report is the lenient one** of a formula that one of the first two stages
decides. -/
theorem reportStrictly_eq_ok_iff {r : Report} :
    reportStrictly w evaluator inputs formula = .ok r ↔
      report w evaluator inputs formula = .ok r ∧ r.stage.IsEarly := by
  cases found : formulaText? formula with
  | error f => simp [reportStrictly, report, found]
  | ok text =>
    cases text with
    | none =>
      simp only [reportStrictly, found, report_of_blank found, reduceCtorEq, Except.ok.injEq,
        false_iff, not_and]
      rintro rfl
      exact Stage.not_isEarly_iff.mpr (.inl rfl)
    | some s =>
      cases long : isTooLong w s with
      | true =>
        simp only [reportStrictly, report, found, long, if_true, reduceCtorEq, false_iff, not_and]
        intro lenient
        cases basic : basicComputation inputs with
        | error f => simp [basic, Except.map] at lenient
        | ok v =>
          rw [basic] at lenient
          cases lenient
          exact Stage.not_isEarly_iff.mpr (.inr rfl)
      | false =>
        rcases reports_of_short w evaluator inputs found long with
          ⟨x, early, lenient, strict⟩ | ⟨⟨x, late, lenient⟩, first, strict⟩
        · rw [lenient, strict]
          simp only [Except.ok.injEq]
          exact ⟨fun same => ⟨same, same ▸ early⟩, And.left⟩
        · rw [lenient, strict]
          constructor
          · intro refused
            cases refused
          · rintro ⟨h, early⟩
            cases h
            exact absurd early late

/-- Where a strict evaluation of a text has no report, the evaluation of the formula is at fault. -/
theorem reportStrictly_cases (w : Surroundings) (evaluator : Evaluator) (inputs : Value)
    (s : Text) :
    (∃ r, reportStrictly w evaluator inputs (.text s) = .ok r) ∨
    ∃ f : FormulaFault, reportStrictly w evaluator inputs (.text s) = .error (.formula f) ∧
      f.kind = .evaluation := by
  by_cases blank : s.strip = []
  · refine .inr ⟨.blank, ?_, rfl⟩
    cases s <;> simp [reportStrictly, formulaText?, Value.isTruthy, blank]
  have found := formulaText?_text blank
  cases long : isTooLong w s with
  | true =>
    refine .inr ⟨tooLongFault w s, ?_, rfl⟩
    simp [reportStrictly, found, long]
  | false =>
    rcases reports_of_short w evaluator inputs found long with
      ⟨r, -, -, strict⟩ | ⟨-, first, strict⟩
    · exact .inl ⟨r, strict⟩
    · exact .inr ⟨.noStage first, strict, rfl⟩

/-- There is a lenient report wherever the basic computation has a value. -/
theorem exists_report_of_basicComputation (w : Surroundings) (evaluator : Evaluator)
    {inputs : Value} (s : Text) (basic : ∃ v, basicComputation inputs = .ok v) :
    ∃ r, report w evaluator inputs (.text s) = .ok r := by
  obtain ⟨v, basic⟩ := basic
  by_cases blank : s.strip = []
  · refine ⟨_, report_of_blank ?_⟩
    cases s <;> simp [formulaText?, Value.isTruthy, blank]
  have found := formulaText?_text blank
  cases long : isTooLong w s with
  | true => exact ⟨_, by simp only [report, found, long, if_true, basic]; rfl⟩
  | false => exact ⟨_, report_of_short found long⟩

end

/-! ## 3. The value of a formula -/

theorem evaluateStrictly_eq_ok_iff {w : Surroundings} {inputs formula : Value} {v : Float} :
    evaluateStrictly w inputs formula = .ok v ↔
      ∃ r, report w standardEvaluator inputs formula = .ok r ∧ r.stage.IsEarly ∧ r.value = v := by
  simp only [← and_assoc, ← reportStrictly_eq_ok_iff]
  rw [evaluateStrictly]
  cases reportStrictly w standardEvaluator inputs formula with
  | ok r => simp [Except.map]
  | error f => simp [Except.map]

/-- **A strict evaluation has the value of a lenient one that needs no basic computation, and fails
on every other text.**  It fails with a fault in the evaluation of the formula, whatever went wrong
in a stage and whatever the values of the mapping are.  Where those can be made ready, the lenient
evaluation of such a text ends blank or with the basic computation. -/
theorem evaluateStrictly_agrees (w : Surroundings) (entries : List (Text × Value)) (s : Text) :
    (∀ v, evaluateStrictly w (.mapping entries) (.text s) = .ok v ↔
      ∃ r, report w standardEvaluator (.mapping entries) (.text s) = .ok r ∧
        (r.stage = .primary ∨ r.stage = .alternative) ∧ r.value = v) ∧
    ((∀ v, evaluateStrictly w (.mapping entries) (.text s) ≠ .ok v) →
      (∃ f : FormulaFault,
        evaluateStrictly w (.mapping entries) (.text s) = .error (.formula f) ∧
          f.kind = .evaluation) ∧
      ((∀ entry ∈ entries, ∃ d, Datum.ofValue entry.2 = .ok d) →
        ∃ r, report w standardEvaluator (.mapping entries) (.text s) = .ok r ∧
          (r.stage = .empty ∨ r.stage = .basic))) := by
  refine ⟨fun v => evaluateStrictly_eq_ok_iff, fun fails => ⟨?_, fun ready => ?_⟩⟩
  · rcases reportStrictly_cases w standardEvaluator (.mapping entries) s with
      ⟨r, strict⟩ | ⟨f, strict, kind⟩
    · exact absurd (by rw [evaluateStrictly, strict]; rfl) (fails r.value)
    · exact ⟨f, by rw [evaluateStrictly, strict]; rfl, kind⟩
  · obtain ⟨r, lenient⟩ :=
      exists_report_of_basicComputation w standardEvaluator s (exists_basicComputation ready)
    refine ⟨r, lenient, Stage.not_isEarly_iff.mp fun early => ?_⟩
    exact fails r.value (evaluateStrictly_eq_ok_iff.mpr ⟨r, lenient, early, rfl⟩)

/-- A character that no token starts with: the strict evaluation fails, and the lenient one
multiplies and adds what it has. -/
theorem evaluateStrictly_agrees_dollar :
    (∃ f : FormulaFault,
      evaluateStrictly .bare (.mapping [("Palets".toList, .int 3)]) (.text "Palets $".toList) =
          .error (.formula f) ∧ f.kind = .evaluation) ∧
    ∃ r, report .bare standardEvaluator (.mapping [("Palets".toList, .int 3)])
        (.text "Palets $".toList) = .ok r ∧ (r.stage = .empty ∨ r.stage = .basic) := by
  have fails : (evaluateStrictly .bare (.mapping [("Palets".toList, .int 3)])
      (.text "Palets $".toList)).isOk = false := by
    decide +kernel
  have ready : ∀ entry ∈ [("Palets".toList, Value.int 3)], ∃ d, Datum.ofValue entry.2 = .ok d :=
    List.forall_mem_singleton.mpr ⟨.number 3, by rfl⟩
  obtain ⟨-, failing⟩ :=
    evaluateStrictly_agrees .bare [("Palets".toList, .int 3)] "Palets $".toList
  obtain ⟨fault, lenient⟩ := failing fun v found => by
    rw [found] at fails
    cases fails
  exact ⟨fault, lenient ready⟩

end Haulage
