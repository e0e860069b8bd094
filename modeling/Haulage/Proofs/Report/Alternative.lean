/-
# The alternative stage and formulas that are none

The alternative stage makes the choices between numbers that an expression has left, and evaluates
what results.  It is there for expressions that fail in their evaluation.  An expression that cannot
be read stays one that cannot, unless one of its choices stands beside an operand
(`exists_parsed_of_simplifyChoices`); so no other such expression gets its value from the
alternative stage, and a formula that is prepared into one is not valid
(`syntaxFault_of_simplifyChoices`).

What nests too deeply is refused as well, but for a limit of the machine and not for its form, and
making choices does make a text less deep.  So that fault is left out.
-/
import Haulage.Proofs.Formula.Choice
import Haulage.Proofs.Report.Strict
import Haulage.Validation.Verdict

namespace Haulage

open NumericChoice (ComesBeside)

/-! ## 1. What the first two stages read -/

/-- A text that stands for no expression is not read. -/
theorem exists_fault_of_parsed {s : Text} (none : ¬ ∃ e, parsed s = .ok e) :
    ∃ g, readExpression s = .error g := by
  cases read : readExpression s with
  | error g => exact ⟨g, rfl⟩
  | ok e => exact absurd ⟨e, parsed_of_readExpression read⟩ none

/-- A text that is not read stands for no expression, unless it nests too deeply. -/
theorem not_parsed_of_readExpression {s : Text} {f : SyntaxFault}
    (rejected : readExpression s = .error f) (shallow : f ≠ .tooDeep) :
    ¬ ∃ e, parsed s = .ok e := by
  rintro ⟨e, parses⟩
  rcases readExpression_eq_or s with same | deep
  · rw [same, parses] at rejected
    cases rejected
  · rw [deep] at rejected
    exact shallow (Except.error.inj rejected).symm

theorem exists_readExpression_of_evaluateText {s : Text} {v : Float} (h : evaluateText s = .ok v) :
    ∃ e, readExpression s = .ok e := by
  rw [evaluateText] at h
  cases read : readExpression s with
  | error f => simp [read] at h
  | ok e => exact ⟨e, rfl⟩

section

variable {w : Surroundings} {inputs formula : Value} {r : Report}

/-- One of the first two stages decides only if an expression was prepared, and can be read, or can
be read with its choices made. -/
theorem exists_prepare_of_isEarly (reports : report w standardEvaluator inputs formula = .ok r)
    (early : r.stage.IsEarly) :
    ∃ s, prepare w inputs formula = .ok s ∧
      ∃ e, readExpression s = .ok e ∨ readExpression (simplifyChoices s) = .ok e := by
  cases found : formulaText? formula with
  | error f => simp [report, found] at reports
  | ok text =>
    cases text with
    | none =>
      rw [report_of_blank found] at reports
      cases reports
      exact absurd early (Stage.not_isEarly_iff.mpr (.inl rfl))
    | some t =>
      cases long : isTooLong w t with
      | true =>
        rw [report_of_tooLong found long] at reports
        cases basic : basicComputation inputs with
        | error f => simp [basic, Except.map] at reports
        | ok v =>
          rw [basic] at reports
          cases reports
          exact absurd early (Stage.not_isEarly_iff.mpr (.inr rfl))
      | false =>
        rw [report_of_stages found long] at reports
        cases reports
        rcases runStages_formulaStages inputs (prepare w inputs formula) with
          ⟨stage, v, failed, run, finds, -⟩ | ⟨-, undecided⟩
        · rw [run] at early
          obtain ⟨x, last, evaluates⟩ := finds.exists_expression early
          obtain ⟨e, read⟩ := exists_readExpression_of_evaluateText evaluates
          cases prepares : prepare w inputs formula with
          | error f =>
            rw [prepares] at last
            cases last
          | ok s =>
            refine ⟨s, rfl, e, ?_⟩
            rw [prepares, lastExpression] at last
            split at last
            · obtain rfl := Option.some.inj last
              exact .inl read
            · obtain rfl := Option.some.inj last
              exact .inr read
        · rw [reportOf, undecided] at early
          exact absurd early (Stage.not_isEarly_iff.mpr (.inr rfl))

end

/-! ## 2. Accepted formulas -/

section

variable {settings : Settings} {formula available : Value} {names : List Text}

/-- A formula is accepted only if all its variables are allowed and a strict evaluation on sample
values has a value. -/
theorem accepted_of_isValid_verdict {v : Verdict} (run : verdict settings formula names = .ok v)
    (valid : v.isValid = true) :
    ∃ s x, formulaText? formula = .ok (some s) ∧
      (∀ n ∈ variablesOf s, isAllowed names n = true) ∧
      evaluateStrictly (Sample.surroundings settings) (.mapping (Sample.bindings names)) formula =
        .ok x := by
  simp only [verdict, bind, Except.bind] at run
  split at run
  · cases run
  rename_i text found
  cases text with
  | none =>
    cases run
    cases valid
  | some s =>
    dsimp only at run
    split at run
    · cases run
    rename_i excess measured
    cases excess with
    | some e =>
      cases run
      cases valid
    | none =>
      dsimp only at run
      split at run
      · rename_i allowed
        split at run
        · rename_i x strict
          refine ⟨s, x, found, fun n hn => ?_, strict⟩
          have none := List.isEmpty_iff.mp allowed
          simpa using List.filter_eq_nil_iff.mp none n hn
        · cases run
          cases valid
      · cases run
        cases valid

theorem accepted_of_isValid (valid : (validate settings formula available).isValid = true) :
    ∃ names s x, announcedNames available = .ok names ∧ formulaText? formula = .ok (some s) ∧
      (∀ n ∈ variablesOf s, isAllowed names n = true) ∧
      evaluateStrictly (Sample.surroundings settings) (.mapping (Sample.bindings names)) formula =
        .ok x := by
  unfold validate at valid
  split at valid
  · cases valid
  · rename_i names announced
    refine ⟨names, ?_⟩
    cases run : verdict settings formula names with
    | error f => simp [run, Verdict.isValid] at valid
    | ok v =>
      rw [run] at valid
      obtain ⟨s, x, accepted⟩ := accepted_of_isValid_verdict run valid
      exact ⟨s, x, announced, accepted⟩

end

/-! ## 3. Expressions that cannot be read -/

/-- **The alternative stage rescues no expression that cannot be read.**  An expression that is
refused for its form, and in which no choice comes to stand beside an operand, is refused with its
choices made too.  No formula that is prepared into it gets its value from the alternative stage, and
none is valid. -/
theorem syntaxFault_of_simplifyChoices {s : Text} {f : SyntaxFault}
    (rejected : readExpression s = .error f) (shallow : f ≠ .tooDeep) (apart : ¬ ComesBeside s) :
    (∃ g, readExpression (simplifyChoices s) = .error g) ∧
    (∀ w inputs formula r, prepare w inputs formula = .ok s →
      report w standardEvaluator inputs formula = .ok r → r.stage ≠ .alternative) ∧
    ∀ settings formula available names, announcedNames available = .ok names →
      prepare (Sample.surroundings settings) (.mapping (Sample.bindings names)) formula = .ok s →
      (validate settings formula available).isValid = false := by
  have none : ∃ g, readExpression (simplifyChoices s) = .error g :=
    exists_fault_of_parsed fun made =>
      not_parsed_of_readExpression rejected shallow (exists_parsed_of_simplifyChoices apart made)
  obtain ⟨g, rejected'⟩ := none
  have late {w : Surroundings} {inputs formula : Value} {r : Report}
      (prepares : prepare w inputs formula = .ok s)
      (reports : report w standardEvaluator inputs formula = .ok r) : ¬ r.stage.IsEarly := by
    intro early
    obtain ⟨s', prepares', e, read⟩ := exists_prepare_of_isEarly reports early
    obtain rfl : s' = s := by simpa [prepares] using prepares'.symm
    rcases read with read | read
    · rw [rejected] at read
      cases read
    · rw [rejected'] at read
      cases read
  refine ⟨⟨g, rejected'⟩, fun w inputs formula r prepares reports alternative => ?_,
    fun settings formula available names announced prepares => Bool.eq_false_iff.mpr fun valid => ?_⟩
  · exact late prepares reports (.inr alternative)
  · obtain ⟨names', _, x, announced', -, -, strict⟩ := accepted_of_isValid valid
    obtain rfl : names' = names := by simpa [announced] using announced'.symm
    obtain ⟨r, reports, early, -⟩ := evaluateStrictly_eq_ok_iff.mp strict
    exact late prepares reports early

/-- A choice that an operator stands behind, and a character that no token starts with. -/
theorem syntaxFault_of_simplifyChoices_of_sum :
    readExpression "(1?2:3)+$".toList = .error (.strayCharacter '$' 8) ∧
      ∃ g, readExpression (simplifyChoices "(1?2:3)+$".toList) = .error g := by
  have refused : (readExpression "(1?2:3)+$".toList).map (fun _ => ()) =
      .error (.strayCharacter '$' 8) := by
    decide +kernel
  have rejected : readExpression "(1?2:3)+$".toList = .error (.strayCharacter '$' 8) := by
    cases read : readExpression "(1?2:3)+$".toList with
    | ok e =>
      rw [read] at refused
      cases refused
    | error f =>
      rw [read] at refused
      cases refused
      rfl
  have first : ¬ NumericChoice.OccursBeside "(1?2:3)+$".toList := by
    rintro ⟨before, cs, chosen, after, whole, chooses, beside⟩
    cases before with
    | cons c before =>
      have more : "1?2:3)+$".toList = before ++ '(' :: cs := (List.cons.inj whole).2
      have paren : '(' ∈ "1?2:3)+$".toList := more ▸ List.mem_append_right _ (.head _)
      exact absurd paren (by decide)
    | nil =>
      obtain rfl : "1?2:3)+$".toList = cs := (List.cons.inj whole).2
      obtain ⟨-, rfl⟩ : ['2'] = chosen ∧ "+$".toList = after := by
        have chosen? : NumericChoice.choose? "1?2:3)+$".toList = some (['2'], "+$".toList) := by
          decide +kernel
        rw [chosen?] at chooses
        exact Prod.mk.inj (Option.some.inj chooses)
      cases beside with
      | behindOperand lexes => simpa using lexes.eq_nil
      | behindNumber nothing _ begun => exact begun (List.append_eq_nil_iff.mp nothing.symm).2
      | beforeOperand _ follows =>
        rcases follows with ⟨d, hd, joins⟩ | paren
        · obtain rfl : '+' = d := Option.some.inj hd
          exact absurd joins (by decide)
        · exact absurd paren (by decide)
  have apart : ¬ ComesBeside "(1?2:3)+$".toList := by
    rintro ⟨n, beside⟩
    cases n with
    | zero => exact first beside
    | succ n =>
      have once : NumericChoice.choices.replaceAll "(1?2:3)+$".toList = "2+$".toList := by
        decide +kernel
      have stable : NumericChoice.choices.replaceAll "2+$".toList = "2+$".toList := by
        decide +kernel
      rw [Function.iterate_succ_apply, once, Function.iterate_fixed stable] at beside
      obtain ⟨before, cs, -, -, whole, -⟩ := beside
      have paren : '(' ∈ "2+$".toList := whole ▸ List.mem_append_right _ (.head _)
      exact absurd paren (by decide)
  exact ⟨rejected, (syntaxFault_of_simplifyChoices rejected (by decide) apart).1⟩

end Haulage
