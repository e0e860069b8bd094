/-
# The default formula and the basic computation

The default formula is what the basic computation computes, written as a formula.  Still the two go
different ways to it: the formula has its variables put in as text, is cut and read again, and falls
back on the basic computation where it comes to nothing.

They meet because of what the prepared formula can be read as.  In the place of each name there is
its number, or a text, or the name itself (`Operand`), and making choices changes no more than what
the texts say.  An evaluation that succeeds has found three numbers, so it multiplied and added what
the basic computation did (`beq_basicAmount_of_evaluateText`); any other leaves the value to the
basic computation (`evaluate_defaultFormula`).
-/
import Haulage.Proofs.Formula.Choiceless
import Haulage.Proofs.Report.Trail

namespace Haulage

open Lexer (Lexes Spells)

/-! ## 1. The formula as it is written -/

/-- The default formula. -/
def Form.default : Form :=
  .binary .plus
    (.binary .times (.name Quantity.value.name.toList) (.name Quantity.pallets.name.toList))
    (.name Quantity.toll.name.toList)

/-- The text of the default formula. -/
def defaultText : Text := "Valor * Palets + Peaje".toList

theorem lexes_defaultText : Lexes defaultText Form.default.lexemes := by
  have word {c : Char} {cs : Text} (start : isNameStart c = true) (digit : isDigitLike c = false)
      (inside : ∀ d ∈ cs, isNameChar d = true) : Lexes (c :: cs) [.name (c :: cs)] := by
    have spells : Spells (c :: cs) (.name (c :: cs)) [] := .name start digit inside rfl
    exact spells.lexes
  have parts : List.Forall₂ Lexes
      ["Valor".toList, " * ".toList, "Palets".toList, " + ".toList, "Peaje".toList]
      [[.name "Valor".toList], [.symbol (.operator .times)], [.name "Palets".toList],
        [.symbol (.operator .plus)], [.name "Peaje".toList]] :=
    .cons (word (by decide) (by decide) (by decide)) <| .cons (Lexer.lexes_spaced rfl) <|
    .cons (word (by decide) (by decide) (by decide)) <| .cons (Lexer.lexes_spaced rfl) <|
    .cons (word (by decide) (by decide) (by decide)) .nil
  exact Lexes.flatten parts Form.default.phrase.apart

namespace Form

theorem wellFormed_default : Form.default.WellFormed := by
  simp [Form.default, WellFormed, rank, Operator.level?, Level.rank]

@[simp] theorem calls_default : Form.default.calls = [] := rfl

variable {data : List (Text × Datum)}

/-- Inlining brings no question mark in. -/
theorem question_not_mem_inline {f : Form} (free : ∀ call ∈ f.calls, data.lookup call.1 = none)
    (choiceless : .symbol .question ∉ f.lexemes) :
    .symbol .question ∉ (f.inline data).lexemes := by
  have datum (d : Datum) : .symbol .question ∉ d.form.lexemes := by
    cases d with
    | text s => simp [Datum.form, lexemes]
    | number x =>
      simp only [Datum.form, ofFloat]
      split <;> simp [lexemes, Sign.operator]
  rw [f.lexemes_inline data free, List.mem_flatMap]
  rintro ⟨l, mem, inside⟩
  cases l with
  | number | text => simp [Lexeme.inline] at inside
  | symbol s =>
    obtain rfl : Symbol.question = s := by simpa [Lexeme.inline] using inside
    exact choiceless mem
  | name n =>
    rw [Lexeme.inline] at inside
    cases found : data.lookup n with
    | none => simp [found] at inside
    | some d =>
      rw [found] at inside
      exact datum d inside

end Form

/-! ## 2. The formula as it is prepared -/

section

variable {w : Surroundings} {entries : List (Text × Value)} {data : List (Text × Datum)}

/-- Nothing is spelled out in the default formula. -/
theorem prepare_default (standard : w.settings = .standard)
    (ready : normalizeEntries entries = .ok data) :
    prepare w (.mapping entries) (.text defaultText) =
      .ok (inlineLiterals (dataLiterals data) defaultText) := by
  have quiet (k : Shorthand) : Quiet (headNamed k.name.toList) none defaultText [] :=
    quiet_of_free lexes_defaultText (by decide) (by simp [Form.calls_expr]) k .nil none
  have limit : passLimit w none = 10 := by
    rw [passLimit, standard]
    rfl
  have within : expandWithin w 10 defaultText = .ok defaultText := by
    rw [expandWithin, expandOnce_of_free w quiet, standard]
    rfl
  have expanded : expand w none (.text defaultText) = .ok (.text defaultText) := by
    rw [expand_text (by decide), limit, within]
    rfl
  rw [prepare, normalize_mapping, ready]
  dsimp only
  rw [expanded]
  rfl

/-- Prepared it is the form with data in place of the names. -/
theorem writtenAs_default (names : ∀ entry ∈ data, IsName entry.1)
    (finite : ∀ entry ∈ data, entry.2.isFinite = true) :
    (Form.default.inline data).WrittenAs (inlineLiterals (dataLiterals data) defaultText) := by
  have commas : CommasApart defaultText := by
    rintro d e ⟨x, y, whole⟩
    have mem : ',' ∈ defaultText := by simp [← whole]
    exact absurd mem (by decide)
  have points : PointsApart defaultText := by
    rintro c ⟨x, y, whole⟩
    have mem : '.' ∈ defaultText := by simp [← whole]
    exact absurd mem (by decide)
  have lexemes := Form.default.lexemes_inline data (by simp)
  refine .of_lexes (lexemes ▸ ?_)
  exact lexes_inlineLiterals names finite (stretched_of_lexes lexes_defaultText (by decide)) commas
    points Form.default.phrase.apart (lexemes ▸ (Form.default.inline data).phrase.apart)

end

/-! ## 3. What it is read as -/

/-- What stands in the place of a name, but for what a text says. -/
inductive Operand (data : List (Text × Datum)) (n : Text) : Expr → Prop
  | number {x : Float} (found : data.lookup n = some (.number x)) :
      Operand data n (Datum.number x).expr
  | text {s : Text} (found : data.lookup n = some (.text s)) (t : Text) : Operand data n (.text t)
  | missing (found : data.lookup n = none) : Operand data n (.name n)

section

variable {data : List (Text × Datum)}

theorem eq_of_replaces_number {x : Float} {e : Expr}
    (h : Expr.Replaces [] (Datum.number x).expr e) : e = (Datum.number x).expr := by
  rw [Datum.expr] at h ⊢
  by_cases negative : x < 0
  · rw [if_pos negative] at h ⊢
    cases h with
    | signed _ operand =>
      cases operand
      rfl
  · rw [if_neg negative] at h ⊢
    cases h
    rfl

theorem operand_of_replaces {n : Text} {e : Expr}
    (h : Expr.Replaces [] ((Expr.name n).inline data) e) : Operand data n e := by
  rw [Expr.inline] at h
  cases found : data.lookup n with
  | none =>
    rw [found] at h
    cases h with
    | name => exact .missing found
    | datum found' => cases found'
  | some d =>
    rw [found] at h
    cases d with
    | number x => exact eq_of_replaces_number h ▸ .number found
    | text s =>
      cases h with
      | text _ t => exact .text found t

/-- An operand has the value of its number or is a text. -/
theorem Operand.eval_cases {n : Text} {e : Expr} (h : Operand data n e) {v : Value}
    (run : e.eval [] = .ok v) :
    (∃ x, data.lookup n = some (.number x) ∧ v = .float (readBack x)) ∨ ∃ t, v = .text t := by
  cases h with
  | @number x found =>
    rw [Datum.eval_expr_number] at run
    exact .inl ⟨x, found, (Except.ok.inj run).symm⟩
  | text _ t => exact .inr ⟨t, (Except.ok.inj run).symm⟩
  | missing => cases run

/-- A quantity that is a number is taken for it. -/
theorem amountOf_of_number (finite : ∀ entry ∈ data, entry.2.isFinite = true) {q : Quantity}
    {x : Float} (found : data.lookup q.name.toList = some (.number x)) :
    amountOf data q = x := by
  rw [amountOf, found]
  exact if_pos (finite _ (mem_of_lookup found))

theorem exists_of_eval_binary {bindings : Bindings} {o : Operator} {l r : Expr} {v : Value}
    (h : (Expr.binary o l r).eval bindings = .ok v) :
    ∃ a b, l.eval bindings = .ok a ∧ r.eval bindings = .ok b ∧ o.apply a b = .ok v := by
  rw [Expr.eval] at h
  cases left : l.eval bindings with
  | error f => simp [left] at h
  | ok a =>
    cases right : r.eval bindings with
    | error f => simp [left, right] at h
    | ok b =>
      rw [left, right] at h
      refine ⟨a, b, rfl, rfl, ?_⟩
      cases applied : o.apply a b with
      | error f => simp [applied, liftValue, Except.mapError] at h
      | ok u => simpa [applied, liftValue, Except.mapError] using h

theorem exists_of_evaluateText {s : Text} {e : Expr} {v : Float} (parses : parsed s = .ok e)
    (run : evaluateText s = .ok v) : ∃ u, e.eval [] = .ok u ∧ finiteNumber u = .ok v := by
  rw [evaluateText] at run
  cases read : readExpression s with
  | error f => simp [read] at run
  | ok e' =>
    obtain rfl : e' = e := by simpa [parses] using (parsed_of_readExpression read).symm
    rw [read] at run
    dsimp only at run
    rw [Expr.evaluate] at run
    cases value : e'.eval [] with
    | error f => simp [value, Except.mapError] at run
    | ok u =>
      rw [value] at run
      exact ⟨u, rfl, run⟩

/-- Floats that are the same up to the sign of a zero compare as equal. -/
theorem beq_of_dropZeroSign_eq {x y : Float} (finite : x.isFinite = true)
    (same : dropZeroSign x = dropZeroSign y) : y.isFinite = true ∧ (x == y) = true := by
  have self := beq_self finite
  rcases dropZeroSign_eq_or x with hx | ⟨rfl, hx⟩ <;>
    rcases dropZeroSign_eq_or y with hy | ⟨rfl, hy⟩
  · rw [hx, hy] at same
    exact same ▸ ⟨finite, self⟩
  · obtain rfl : x = 0 := hx.symm.trans (same.trans hy)
    exact ⟨rfl, rfl⟩
  · obtain rfl : y = 0 := hy.symm.trans (same.symm.trans hx)
    exact ⟨rfl, rfl⟩
  · exact ⟨finite, self⟩

/-- Reading floats back does not change what the default formula comes to. -/
theorem dropZeroSign_readBack {x y z : Float} (hx : x.isFinite = true) (hy : y.isFinite = true)
    (hz : z.isFinite = true) :
    dropZeroSign (readBack x * readBack y + readBack z) = dropZeroSign (x * y + z) := by
  have same {x : Float} (finite : x.isFinite = true) : dropZeroSign (readBack x) = dropZeroSign x :=
    dropZeroSign_eq_of_beq (readBack_beq finite)
  rw [← dropZeroSign_add, ← dropZeroSign_mul, same hx, same hy, same hz, dropZeroSign_mul,
    dropZeroSign_add]

/-- An evaluation that succeeds has found three numbers. -/
theorem exists_numbers_of_eval {e : Expr}
    (replaced : Expr.Replaces [] (Form.default.expr.inline data) e) {u : Value}
    (value : e.eval [] = .ok u) :
    ∃ x y z, data.lookup Quantity.value.name.toList = some (.number x) ∧
      data.lookup Quantity.pallets.name.toList = some (.number y) ∧
      data.lookup Quantity.toll.name.toList = some (.number z) ∧
      u = .float (readBack x * readBack y + readBack z) := by
  cases replaced with
  | binary _ left toll =>
    cases left with
    | binary _ amount pallets =>
      obtain ⟨m, c, evalm, evalc, sum⟩ := exists_of_eval_binary value
      obtain ⟨a, b, evala, evalb, product⟩ := exists_of_eval_binary evalm
      -- with a text among the three there is no product or no sum
      rcases (operand_of_replaces amount).eval_cases evala with ⟨x, foundx, rfl⟩ | ⟨s, rfl⟩ <;>
        rcases (operand_of_replaces pallets).eval_cases evalb with ⟨y, foundy, rfl⟩ | ⟨t, rfl⟩ <;>
        cases product
      rcases (operand_of_replaces toll).eval_cases evalc with ⟨z, foundz, rfl⟩ | ⟨t, rfl⟩ <;>
        cases sum
      exact ⟨x, y, z, foundx, foundy, foundz, rfl⟩

/-- **An evaluation that succeeds computes what the basic computation does.** -/
theorem beq_basicAmount_of_evaluateText (finite : ∀ entry ∈ data, entry.2.isFinite = true)
    {s : Text} {v : Float} (written : (Form.default.inline data).WrittenAs s)
    (run : evaluateText s = .ok v) : (v == basicAmount data) = true := by
  obtain ⟨e, parses, replaced⟩ :=
    written.exists_parsed (Form.default.wellFormed_inline data Form.wellFormed_default)
  rw [Form.expr_inline] at replaced
  obtain ⟨u, value, number⟩ := exists_of_evaluateText parses run
  obtain ⟨x, y, z, foundx, foundy, foundz, rfl⟩ := exists_numbers_of_eval replaced value
  have finite' {n : Text} {x : Float} (found : data.lookup n = some (.number x)) :
      x.isFinite = true := finite _ (mem_of_lookup found)
  rw [finiteNumber] at number
  split at number
  · rename_i finiteSum
    cases number
    obtain ⟨finiteExact, equal⟩ := beq_of_dropZeroSign_eq finiteSum
      (dropZeroSign_readBack (finite' foundx) (finite' foundy) (finite' foundz))
    rw [basicAmount, amountOf_of_number finite foundx, amountOf_of_number finite foundy,
      amountOf_of_number finite foundz, if_pos finiteExact]
    exact equal
  · cases number

end

/-! ## 4. The value of the default formula -/

/-- **The default formula comes to what the basic computation does.**  Whatever the variables of a
mapping are, as long as they have the names of variables and can be made ready, the value of the
default formula is numerically equal to that of the basic computation. -/
theorem evaluate_defaultFormula {w : Surroundings} (standard : w.settings = .standard)
    {entries : List (Text × Value)} (names : ∀ entry ∈ entries, IsName entry.1)
    (ready : ∀ entry ∈ entries, ∃ d, Datum.ofValue entry.2 = .ok d) :
    ∃ x, basicComputation (.mapping entries) = .ok x ∧
      (evaluate w (.mapping entries) (.text "Valor * Palets + Peaje".toList) == x) = true := by
  obtain ⟨data, normalized, -, good⟩ := exists_normalizeEntries
    (P := fun n d => IsName n ∧ d.isFinite = true) fun entry mem => by
      obtain ⟨d, made⟩ := ready entry mem
      exact ⟨d, made, names entry mem, Datum.isFinite_of_ofValue made⟩
  have names : ∀ entry ∈ data, IsName entry.1 := fun entry mem => (good entry mem).1
  have finite : ∀ entry ∈ data, entry.2.isFinite = true := fun entry mem => (good entry mem).2
  have basic : basicComputation (.mapping entries) = .ok (basicAmount data) := by
    rw [basicComputation, normalize_mapping, normalized]
    rfl
  refine ⟨_, basic, ?_⟩
  have written := writtenAs_default names finite
  have simplified := written.simplifyChoices
    (Form.default.wellFormed_inline data Form.wellFormed_default)
    (Form.question_not_mem_inline (by simp) (by simp [Form.default, Form.lexemes]))
  have found := formulaText?_text (s := defaultText) (by decide)
  have short : isTooLong w defaultText = false := by
    rw [isTooLong, standard]
    rfl
  change (evaluate w (.mapping entries) (.text defaultText) == _) = true
  rw [evaluate, report_of_stages found short, prepare_default standard normalized]
  rcases runStages_formulaStages (.mapping entries)
      (.ok (inlineLiterals (dataLiterals data) defaultText)) with
    ⟨stage, v, failed, run, finds, -⟩ | ⟨⟨e, fails⟩, -⟩
  · rw [run]
    change (v == basicAmount data) = true
    cases stage with
    | primary =>
      exact beq_basicAmount_of_evaluateText finite written (standardEvaluator_eq_ok_iff.mp finds)
    | alternative =>
      obtain ⟨x, last, evaluates⟩ := finds.exists_expression (.inr rfl)
      obtain rfl := Option.some.inj last
      exact beq_basicAmount_of_evaluateText finite simplified evaluates
    | basic =>
      obtain rfl : basicAmount data = v := by
        simpa [basic] using basicStage_eq_ok_iff.mp finds
      exact beq_self (isFinite_basicAmount data)
    | empty => exact finds.elim
  · simp [basicStage_eq_ok_iff.mpr basic] at fails

/-- A negative value that comes as a text, and a variable that the formula does not mention. -/
theorem evaluate_defaultFormula_of_negative :
    let entries : List (Text × Value) := [("Valor".toList, .text "-1.5".toList),
      ("Palets".toList, .int 2), ("Peaje".toList, .float 0.25), ("Zona".toList, .text "norte".toList)]
    (∀ entry ∈ entries, IsName entry.1) ∧ (∀ entry ∈ entries, ∃ d, Datum.ofValue entry.2 = .ok d) ∧
      (evaluate .bare (.mapping entries) (.text "Valor * Palets + Peaje".toList) == -2.75) = true := by
  intro entries
  have names : ∀ entry ∈ entries, IsName entry.1 := by
    simp only [entries, List.forall_mem_cons, List.not_mem_nil, false_imp_iff, implies_true, and_true]
    refine ⟨?_, ?_, ?_, ?_⟩ <;> exact ⟨_, _, rfl, by decide, by decide⟩
  have ready : ∀ entry ∈ entries, ∃ d, Datum.ofValue entry.2 = .ok d := by
    simp only [entries, List.forall_mem_cons, List.not_mem_nil, false_imp_iff, implies_true, and_true]
    exact ⟨⟨_, rfl⟩, ⟨_, rfl⟩, ⟨_, rfl⟩, ⟨_, rfl⟩⟩
  obtain ⟨x, basic, equal⟩ := evaluate_defaultFormula (w := .bare) rfl names ready
  have value : (-2.75 : Float) = x := Except.ok.inj basic
  exact ⟨names, ready, value ▸ equal⟩

end Haulage
