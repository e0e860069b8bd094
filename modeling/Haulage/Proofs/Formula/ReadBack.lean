/-
# Values read back from their literals

A value goes into a formula as its literal (`Value.literal`), and the formula is cut and read by
functions that know nothing of how literals are written.  This module proves that the two agree.

A text is read from its literal as it is, whatever characters it has and whatever stands behind the
literal (`scanFrom_literal_append`): a text can neither end its literal early nor hold it open.  The
literal of a finite number is read as an expression (`readExpression_literal`) whose value is the
number again, up to the sign of a zero.
-/
import Haulage.Proofs.Formula.Printing

namespace Haulage

open Nesting (Weighs)

/-! ## 1. Texts -/

/-- The literal of a text does not change how what stands behind it is read. -/
theorem scanFrom_literal_append (place : Nat) (s rest : Text) :
    Lexer.scanFrom place (s.literal ++ rest) =
      (Lexer.scanFrom (place + s.literal.length) rest).map fun scanned =>
        ⟨⟨.text s, place⟩ :: scanned.tokens, scanned.finish⟩ :=
  (spells_literal s rest).scanFrom_append place

/-- Alone it is the only token. -/
theorem scan_literal (s : Text) :
    Lexer.scan s.literal = .ok ⟨[⟨.text s, 0⟩], s.literal.length⟩ := by
  have scanned := scanFrom_literal_append 0 s []
  rw [List.append_nil, Nat.zero_add, Lexer.scanFrom] at scanned
  exact scanned

/-! ## 2. Expressions -/

namespace Datum

/-- A literal holds no more open than one pair of parentheses and a sign. -/
theorem exists_weighs_form (d : Datum) :
    ∃ weight ≤ mostNesting, Weighs d.form.lexemes weight := by
  cases d with
  | text s => exact ⟨0, by decide, (Expr.text s).weighs_toForm⟩
  | number x =>
    rw [form, Form.ofFloat]
    split
    · exact ⟨Nesting.parenWeight + (1 + 0), by decide, (Expr.signed .minus (.number x)).weighs_toForm⟩
    · exact ⟨0, by decide, (Expr.number x).weighs_toForm⟩

/-- **A literal is read as the expression for its datum.** -/
theorem readExpression_literal {d : Datum} (finite : d.isFinite = true) :
    readExpression d.literal = .ok d.expr := by
  obtain ⟨weight, shallow, weighs⟩ := d.exists_weighs_form
  refine readExpression_eq_ok_iff.mpr
    ⟨d.form, d.wellFormed_form, d.expr_form, lexes_literal finite, ?_⟩
  rw [weighs .start ⟨rfl, le_rfl⟩]
  simpa [Nesting.start, OpenLevel.weight] using shallow

/-- What is read comes to the datum, up to the sign of a zero. -/
theorem evaluate_expr_number (x : Float) (bindings : Bindings) :
    (expr (.number x)).evaluate bindings = .ok (.float (readBack x)) := by
  rw [Expr.evaluate, eval_expr_number]
  rfl

end Datum

/-! ## 3. Values -/

/-- **A value is read back from its literal.**  Every text has a literal, and the lexer makes the text
of it: alone the literal is the one token of its formula, and in front of anything else it is the
token before those that are found behind it.  Every finite number has one, too; it is read as an
expression, which comes to a number that is equal to it. -/
theorem literal_readsBack :
    (∀ s : Text, ∃ t, (Value.text s).literal = .ok t ∧
      Lexer.scan t = .ok ⟨[⟨.text s, 0⟩], t.length⟩ ∧
      ∀ place rest, Lexer.scanFrom place (t ++ rest) =
        (Lexer.scanFrom (place + t.length) rest).map fun scanned =>
          ⟨⟨.text s, place⟩ :: scanned.tokens, scanned.finish⟩) ∧
    ∀ x : Float, x.isFinite = true → ∃ t e y, (Value.float x).literal = .ok t ∧
      readExpression t = .ok e ∧ (∀ bindings, e.evaluate bindings = .ok (.float y)) ∧
      (y == x) = true := by
  constructor
  · intro s
    exact ⟨s.literal, rfl, scan_literal s, fun place rest => scanFrom_literal_append place s rest⟩
  · intro x finite
    have written := (Datum.number x).literal_toValue
    have read := Datum.readExpression_literal (d := .number x) finite
    exact ⟨_, _, readBack x, written, read, Datum.evaluate_expr_number x, readBack_beq finite⟩

theorem literal_readsBack_of_negative :
    (Value.text "a\"; b\\\n".toList).literal = .ok "\"a\\\"; b\\\\\n\"".toList ∧
      Lexer.scan "\"a\\\"; b\\\\\n\"".toList = .ok ⟨[⟨.text "a\"; b\\\n".toList, 0⟩], 11⟩ ∧
      (Value.float (-1e-7)).literal = .ok "(-1e-07)".toList ∧
      ∃ e y, readExpression "(-1e-07)".toList = .ok e ∧ e.evaluate [] = .ok (.float y) ∧
        (y == -1e-7) = true := by
  obtain ⟨t, written, alone, -⟩ := literal_readsBack.1 "a\"; b\\\n".toList
  obtain ⟨u, e, y, writtenNumber, read, value, same⟩ :=
    literal_readsBack.2 (-1e-7) (by decide +kernel)
  have text : (Value.text "a\"; b\\\n".toList).literal = .ok "\"a\\\"; b\\\\\n\"".toList := by decide
  have number : (Value.float (-1e-7)).literal = .ok "(-1e-07)".toList := by decide +kernel
  obtain rfl := Except.ok.inj (written.symm.trans text)
  obtain rfl := Except.ok.inj (writtenNumber.symm.trans number)
  exact ⟨text, alone, number, e, y, read, value [], same⟩

end Haulage
