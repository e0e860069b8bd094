/-
# Expressions with variables inlined

`Expr.inline` puts what data are read as in place of the variables that they are for.  It does not
change what an expression evaluates to (`Expr.agree_evaluate_inline`): an inlined expression without variables
and the expression with variables have the same fault, or values that are the same up to the sign of
a zero, which is lost on minus zero.

`Form.inline` does the same to forms.  A negative number stands in parentheses there, so what is put
in place of a name binds as tightly as the name did, and the form stays well formed.
-/
import Haulage.Proofs.Formula.Literal
import Haulage.Proofs.Formula.ZeroSign
import Haulage.Proofs.Shorthand.Site
import Haulage.Formula.Datum

namespace Haulage

open Lexer (Lexes Spells)

/-! ## 1. Data -/

namespace Datum

/-- Is the datum a text or a finite number? -/
def isFinite : Datum → Bool
  | number x => x.isFinite
  | text _ => true

/-- What a datum is read as: a number without its sign, with a minus sign in front of it if it is
below zero, or a text. -/
def expr : Datum → Expr
  | number x => if x < 0 then .signed .minus (.number x.abs) else .number x.abs
  | text s => .text s

/-- How a datum is written. -/
def form : Datum → Form
  | number x => if x < 0 then .paren (.ofFloat x) else .ofFloat x
  | text s => .text s

variable (d : Datum)

theorem expr_form : d.form.expr = d.expr := by
  cases d with
  | number x =>
    simp only [form, expr, Form.ofFloat]
    split <;> rfl
  | text s => rfl

theorem rank_form : d.form.rank = 6 := by
  cases d with
  | number x =>
    simp only [form, Form.ofFloat]
    split <;> rfl
  | text s => rfl

theorem wellFormed_form : d.form.WellFormed := by
  cases d with
  | number x =>
    simp only [form]
    split <;> exact Form.wellFormed_ofFloat x
  | text s => trivial

theorem eval_expr_number (x : Float) (bindings : Bindings) :
    (expr (.number x)).eval bindings = .ok (.float (readBack x)) := by
  rw [← Form.eval_ofFloat x bindings]
  simp only [expr, Form.ofFloat]
  split <;> rfl

theorem agree_expr {d : Datum} (finite : d.isFinite = true) (bindings : Bindings) :
    Agree (d.expr.eval bindings) (.ok d.toValue) := by
  cases d with
  | number x =>
    rw [eval_expr_number]
    exact .ok (congrArg Value.float (dropZeroSign_eq_of_beq (readBack_beq finite)))
  | text s => rfl

end Datum

/-- Only a number below zero is written in parentheses. -/
theorem less_zero_iff {x : Float} (finite : x.isFinite = true) :
    (Number.float x).less (.int 0) = true ↔ x < 0 := by
  have zero : exactValue 0 = 0 := rfl
  rw [lt_iff finite rfl, zero, Number.less, Number.compare?, compareInt_eq 0 finite,
    beq_iff_eq, Option.map_some, Option.some_inj, Ordering.swap_eq_lt, compare_gt_iff_gt]
  simp

/-- A text is read back from its literal. -/
theorem readQuoted?_escaped (s rest : Text) :
    Lexer.readQuoted? (s.escaped ++ '"' :: rest) = some (s, rest) := by
  induction s with
  | nil => rfl
  | cons c s ih =>
    have step : Text.escaped (c :: s) =
        (if c == '\\' || c == '"' then ['\\', c] else [c]) ++ Text.escaped s := rfl
    rw [step]
    split
    · rw [List.append_assoc, List.cons_append, List.singleton_append, Lexer.readQuoted?, ih]
      rfl
    · rename_i plain
      simp only [Bool.or_eq_true, beq_iff_eq, not_or] at plain
      rw [List.append_assoc, List.singleton_append,
        Lexer.readQuoted?.eq_4 _ _ plain.2 (fun _ _ h => absurd h plain.1), ih]
      rfl

/-- Whatever stands behind it, the literal of a text is a token of its own. -/
theorem spells_literal (s rest : Text) : Spells s.literal (.text s) rest :=
  .text (by simpa using readQuoted?_escaped s rest)

/-- **A literal is read as its datum.** -/
theorem Datum.lexes_literal {d : Datum} (finite : d.isFinite = true) :
    Lexes d.literal d.form.lexemes := by
  cases d with
  | text s => exact (spells_literal s []).lexes
  | number x =>
    have lexes : Lexes (numberText x) (Form.ofFloat x).lexemes := lexes_numberText finite
    have apart := (Datum.number x).form.phrase.apart
    simp only [form, literal, Number.literal] at apart ⊢
    by_cases negative : x < 0
    · rw [if_pos negative] at apart ⊢
      rw [if_pos ((less_zero_iff finite).mpr negative)]
      have opening : Lexes ['('] [.symbol .openParen] := Lexer.lexes_symbol rfl
      have closing : Lexes [')'] [.symbol .closeParen] := Lexer.lexes_symbol rfl
      exact opening.append (lexes.append closing apart.of_cons) apart
    · rw [if_neg negative, if_neg (mt (less_zero_iff finite).mp negative)]
      exact lexes

/-! ## 2. Expressions -/

namespace Expr

mutual

/-- The expression with data in place of the variables that they are for. -/
def inline (data : List (Text × Datum)) : Expr → Expr
  | number x => number x
  | text s => text s
  | name n => ((data.lookup n).map Datum.expr).getD (name n)
  | signed sign e => signed sign (e.inline data)
  | binary o l r => binary o (l.inline data) (r.inline data)
  | conditional c a b => conditional (c.inline data) (a.inline data) (b.inline data)
  | call function es => call function (inlineAll data es)

/-- Expressions with data in place of variables. -/
def inlineAll (data : List (Text × Datum)) : List Expr → List Expr
  | [] => []
  | e :: es => e.inline data :: inlineAll data es

end

end Expr

/-- The values of data. -/
def bindingsOf (data : List (Text × Datum)) : Bindings :=
  data.map fun (n, d) => (n, d.toValue)

theorem lookup_bindingsOf (data : List (Text × Datum)) (n : Text) :
    (bindingsOf data).lookup n = (data.lookup n).map Datum.toValue := by
  induction data with
  | nil => rfl
  | cons entry data ih =>
    obtain ⟨m, d⟩ := entry
    have ih : (List.map (fun (n, d) => (n, Datum.toValue d)) data).lookup n =
      (data.lookup n).map Datum.toValue := ih
    rw [bindingsOf, List.map_cons, List.lookup_cons, List.lookup_cons, ih]
    split <;> rfl

theorem mem_of_lookup {α : Type} {entries : List (Text × α)} {n : Text} {a : α}
    (h : entries.lookup n = some a) : (n, a) ∈ entries := by
  obtain ⟨front, back, rfl, -⟩ := List.lookup_eq_some_iff.mp h
  simp

mutual

/-- **Inlining agrees with looking up.** -/
theorem Expr.agree_eval_inline {data : List (Text × Datum)}
    (finite : ∀ entry ∈ data, entry.2.isFinite = true) :
    (e : Expr) → Agree ((e.inline data).eval []) (e.eval (bindingsOf data))
  | .number _ => rfl
  | .text _ => rfl
  | .name n => by
    rw [inline, eval, lookup_bindingsOf]
    cases found : data.lookup n with
    | none => rfl
    | some d => exact d.agree_expr (finite _ (mem_of_lookup found)) []
  | .signed sign e => by
    rw [inline, eval, eval]
    rcases (e.agree_eval_inline finite).cases_eq with ⟨f, hf, hf'⟩ | ⟨v, v', hv, hv', same⟩
    · rw [hf, hf']
      rfl
    · rw [hv, hv']
      exact (sign.agree_apply same).mapError _
  | .binary o l r => by
    rw [inline, eval, eval]
    rcases (l.agree_eval_inline finite).cases_eq with ⟨f, hf, hf'⟩ | ⟨a, a', ha, ha', sameLeft⟩
    · rw [hf, hf']
      rfl
    rw [ha, ha']
    rcases (r.agree_eval_inline finite).cases_eq with ⟨f, hf, hf'⟩ | ⟨b, b', hb, hb', sameRight⟩
    · rw [hf, hf']
      rfl
    · rw [hb, hb']
      exact (o.agree_apply sameLeft sameRight).mapError _
  | .conditional c a b => by
    rw [inline, eval, eval]
    rcases (c.agree_eval_inline finite).cases_eq with ⟨f, hf, hf'⟩ | ⟨v, v', hv, hv', same⟩
    · rw [hf, hf']
      rfl
    rw [hv, hv']
    dsimp only
    rw [conditionHolds_eq same]
    cases conditionHolds v' with
    | error f => rfl
    | ok holds =>
      cases holds
      · exact b.agree_eval_inline finite
      · exact a.agree_eval_inline finite
  | .call function es => by
    rw [inline, eval, eval]
    cases calledFunction? function with
    | none => rfl
    | some f =>
      dsimp only
      rcases cases_of_map_eq (agree_evalAll_inline finite es) with
        ⟨f, hf, hf'⟩ | ⟨vs, vs', hvs, hvs', same⟩
      · rw [hf, hf']
        rfl
      · rw [hvs, hvs']
        exact f.agree_apply same

/-- Arguments have the same first fault, or values that are the same one by one. -/
theorem Expr.agree_evalAll_inline {data : List (Text × Datum)}
    (finite : ∀ entry ∈ data, entry.2.isFinite = true) : (es : List Expr) →
    (evalAll [] (inlineAll data es)).map (List.map Value.dropZeroSign) =
      (evalAll (bindingsOf data) es).map (List.map Value.dropZeroSign)
  | [] => rfl
  | e :: es => by
    rw [inlineAll, evalAll, evalAll]
    rcases (e.agree_eval_inline finite).cases_eq with ⟨f, hf, hf'⟩ | ⟨v, v', hv, hv', same⟩
    · rw [hf, hf']
    rw [hv, hv']
    rcases cases_of_map_eq (agree_evalAll_inline finite es) with
      ⟨f, hf, hf'⟩ | ⟨vs, vs', hvs, hvs', rest⟩
    · rw [hf, hf']
    · rw [hvs, hvs']
      exact congrArg Except.ok (congrArg₂ List.cons same rest)

end

/-- An inlined expression and the expression with variables come to the same. -/
theorem Expr.agree_evaluate_inline {data : List (Text × Datum)}
    (finite : ∀ entry ∈ data, entry.2.isFinite = true) (e : Expr) :
    Agree ((e.inline data).evaluate []) (e.evaluate (bindingsOf data)) :=
  (e.agree_eval_inline finite).mapError _

/-! ## 3. Forms -/

/-- What is written in place of a lexeme. -/
def Lexeme.inline (data : List (Text × Datum)) : Lexeme → List Lexeme
  | name n => ((data.lookup n).map fun d => d.form.lexemes).getD [name n]
  | l => [l]

mutual

/-- The form with data in place of the variables that they are for. -/
def Form.inline (data : List (Text × Datum)) : Form → Form
  | .number x => .number x
  | .text s => .text s
  | .name n => ((data.lookup n).map Datum.form).getD (.name n)
  | .paren f => .paren (f.inline data)
  | .signed sign f => .signed sign (f.inline data)
  | .binary o l r => .binary o (l.inline data) (r.inline data)
  | .choice c a b => .choice (c.inline data) (a.inline data) (b.inline data)
  | .emptyCall n => .emptyCall n
  | .call n as => .call n (as.inline data)

/-- Arguments with data in place of variables. -/
def Arguments.inline (data : List (Text × Datum)) : Arguments → Arguments
  | .last f => .last (f.inline data)
  | .more f s as => .more (f.inline data) s (as.inline data)

end

section Forms

variable (data : List (Text × Datum))

theorem Form.rank_inline (f : Form) : (f.inline data).rank = f.rank := by
  cases f with
  | name n =>
    rw [inline]
    cases data.lookup n with
    | none => rfl
    | some d => exact d.rank_form
  | _ => rfl

mutual

theorem Form.expr_inline : (f : Form) → (f.inline data).expr = f.expr.inline data
  | .number _ => rfl
  | .text _ => rfl
  | .name n => by
    rw [Form.inline, Form.expr, Expr.inline]
    cases data.lookup n with
    | none => rfl
    | some d => exact d.expr_form
  | .paren f => f.expr_inline
  | .signed _ f => by rw [Form.inline, Form.expr, Form.expr, Expr.inline, f.expr_inline]
  | .binary _ l r => by rw [Form.inline, Form.expr, Form.expr, Expr.inline, l.expr_inline, r.expr_inline]
  | .choice c a b => by
    rw [Form.inline, Form.expr, Form.expr, Expr.inline, c.expr_inline, a.expr_inline, b.expr_inline]
  | .emptyCall _ => rfl
  | .call _ as => by rw [Form.inline, Form.expr, Form.expr, Expr.inline, as.exprs_inline]

theorem Arguments.exprs_inline :
    (as : Arguments) → (as.inline data).exprs = Expr.inlineAll data as.exprs
  | .last f => by
    rw [Arguments.inline, Arguments.exprs, Arguments.exprs, f.expr_inline, Expr.inlineAll,
      Expr.inlineAll]
  | .more f _ as => by
    rw [Arguments.inline, Arguments.exprs, Arguments.exprs, f.expr_inline, as.exprs_inline,
      Expr.inlineAll]

end

mutual

/-- Data bind as tightly as the names in whose place they stand. -/
theorem Form.wellFormed_inline : (f : Form) → f.WellFormed → (f.inline data).WellFormed
  | .number _, _ => trivial
  | .text _, _ => trivial
  | .name n, _ => by
    rw [Form.inline]
    cases data.lookup n with
    | none => trivial
    | some d => exact d.wellFormed_form
  | .paren f, h => f.wellFormed_inline h
  | .signed _ f, h => ⟨f.wellFormed_inline h.1, (f.rank_inline data).symm ▸ h.2⟩
  | .binary _ l r, h => by
    refine ⟨l.wellFormed_inline h.1, r.wellFormed_inline h.2.1, ?_⟩
    rw [l.rank_inline, r.rank_inline]
    exact h.2.2
  | .choice c a b, h => ⟨c.wellFormed_inline h.1, a.wellFormed_inline h.2.1,
    b.wellFormed_inline h.2.2.1, (c.rank_inline data).symm ▸ h.2.2.2⟩
  | .emptyCall _, _ => trivial
  | .call _ as, h => as.wellFormed_inline h

theorem Arguments.wellFormed_inline :
    (as : Arguments) → as.WellFormed → (as.inline data).WellFormed
  | .last f, h => f.wellFormed_inline h
  | .more f _ as, h => ⟨f.wellFormed_inline h.1, as.wellFormed_inline h.2⟩

end

mutual

/-- The lexemes are those of the form, each with what is written in its place, as long as no function
is called by the name of a variable. -/
theorem Form.lexemes_inline : (f : Form) → (∀ call ∈ f.calls, data.lookup call.1 = none) →
    (f.inline data).lexemes = f.lexemes.flatMap (Lexeme.inline data)
  | .number _, _ => rfl
  | .text _, _ => rfl
  | .name n, _ => by
    rw [Form.inline, Form.lexemes, List.flatMap_singleton, Lexeme.inline]
    cases data.lookup n with
    | none => rfl
    | some d => rfl
  | .paren f, free => by
    simp [Form.inline, Form.lexemes, Lexeme.inline, f.lexemes_inline free]
  | .signed _ f, free => by
    simp [Form.inline, Form.lexemes, Lexeme.inline, f.lexemes_inline free]
  | .binary _ l r, free => by
    simp only [Form.calls, List.mem_append, or_imp, forall_and] at free
    simp [Form.inline, Form.lexemes, Lexeme.inline, l.lexemes_inline free.1,
      r.lexemes_inline free.2]
  | .choice c a b, free => by
    simp only [Form.calls, List.mem_append, or_imp, forall_and] at free
    simp [Form.inline, Form.lexemes, Lexeme.inline, c.lexemes_inline free.1,
      a.lexemes_inline free.2.1, b.lexemes_inline free.2.2]
  | .emptyCall n, free => by
    have absent : data.lookup n = none := free (n, none) (by simp [Form.calls])
    simp [Form.inline, Form.lexemes, Lexeme.inline, absent]
  | .call n as, free => by
    simp only [Form.calls, List.forall_mem_cons] at free
    simp [Form.inline, Form.lexemes, Lexeme.inline, free.1, as.lexemes_inline free.2]

theorem Arguments.lexemes_inline :
    (as : Arguments) → (∀ call ∈ as.calls, data.lookup call.1 = none) →
    (as.inline data).lexemes = as.lexemes.flatMap (Lexeme.inline data)
  | .last f, free => f.lexemes_inline free
  | .more f s as, free => by
    simp only [Arguments.calls, List.mem_append, or_imp, forall_and] at free
    simp [Arguments.inline, Arguments.lexemes, Lexeme.inline, f.lexemes_inline free.1,
      as.lexemes_inline free.2]

end

end Forms

end Haulage
