/-
# Printing expressions

`Expr.print` writes an expression with parentheses around every sign, operator and choice, so that
the text shows the tree.  The theorem of this module is that reading the text gives the tree back
(`readExpression_print`), for every tree that has a text at all: its numbers are finite and not below
zero, since a formula has no sign inside a number, and its names are ones that the lexer can make.
Only the sign of a zero is lost.

The argument goes through `Form`, the formula as it is written.  Three facts about the form that an
expression is printed in carry it, each by induction on the expression: the text is cut into its
lexemes (`Expr.lexes_print`), it stands for the expression (`Expr.expr_toForm`), and it is well
formed (`Expr.wellFormed_toForm`).  The parser does not come into any of them.

What a machine can hold open at once is bounded, and parentheses are what it holds open.
`Expr.weight` says how much that is for a printed expression, exactly (`Expr.nesting_print`), so that
the theorem has no case left open: a tree of more weight than is allowed is refused, any other is
read.
-/
import Haulage.Proofs.Formula.Inlining
import Haulage.Proofs.Formula.Parsing

namespace Haulage

open Lexer (Lexes Spells)

/-! ## 1. Texts and trees -/

/-- The text between parentheses. -/
def Text.parenthesized (s : Text) : Text := '(' :: (s ++ [')'])

/-- An operator with blanks around it. -/
def Operator.spaced (o : Operator) : Text := ' ' :: (o.spelling.toList ++ [' '])

/-- Can the lexer make a name of the text? -/
def isTokenName : Text → Bool
  | [] => false
  | c :: cs => isNameStart c && cs.all isNameChar

namespace Expr

mutual

/-- The expression as a formula. -/
def print : Expr → Text
  | number x => numberText x
  | text s => s.literal
  | name n => n
  | signed sign e => Text.parenthesized (sign.operator.spaced ++ e.print)
  | binary o l r => Text.parenthesized (l.print ++ (o.spaced ++ r.print))
  | conditional c a b =>
    Text.parenthesized (c.print ++ ([' ', '?', ' '] ++ (a.print ++ ([' ', ':', ' '] ++ b.print))))
  | call function es => function ++ Text.parenthesized (printAll es)

/-- Expressions as arguments, with semicolons between them. -/
def printAll : List Expr → Text
  | [] => []
  | [e] => e.print
  | e :: e' :: es => e.print ++ ([';'] ++ printAll (e' :: es))

end

mutual

/-- Has the expression a text?  Its numbers are finite and not below zero, and its names are ones
that the lexer can make. -/
def isPrintable : Expr → Bool
  | number x => x.isFinite && !decide (x < 0)
  | text _ => true
  | name n => isTokenName n
  | signed _ e => e.isPrintable
  | binary _ l r => l.isPrintable && r.isPrintable
  | conditional c a b => c.isPrintable && (a.isPrintable && b.isPrintable)
  | call function es => isTokenName function && areAllPrintable es

/-- Do all the expressions have a text? -/
def areAllPrintable : List Expr → Bool
  | [] => true
  | e :: es => e.isPrintable && areAllPrintable es

end

mutual

/-- The expression with minus zero made zero. -/
def dropZeroSign : Expr → Expr
  | number x => number (Haulage.dropZeroSign x)
  | text s => text s
  | name n => name n
  | signed sign e => signed sign e.dropZeroSign
  | binary o l r => binary o l.dropZeroSign r.dropZeroSign
  | conditional c a b => conditional c.dropZeroSign a.dropZeroSign b.dropZeroSign
  | call function es => call function (dropZeroSigns es)

/-- Expressions with minus zero made zero. -/
def dropZeroSigns : List Expr → List Expr
  | [] => []
  | e :: es => e.dropZeroSign :: dropZeroSigns es

end

mutual

/-- The form that an expression is printed in. -/
def toForm : Expr → Form
  | number x => .number x.abs
  | text s => .text s
  | name n => .name n
  | signed sign e => .paren (.signed sign e.toForm)
  | binary o l r => .paren (.binary o l.toForm r.toForm)
  | conditional c a b => .paren (.choice c.toForm a.toForm b.toForm)
  | call function es => ((toArguments? es).map (Form.call function)).getD (.emptyCall function)

/-- The form that arguments are printed in, if there are any. -/
def toArguments? : List Expr → Option Arguments
  | [] => none
  | [e] => some (.last e.toForm)
  | e :: e' :: es => (toArguments? (e' :: es)).map (.more e.toForm .semicolon)

end

end Expr

/-! ## 2. The form of an expression -/

/-- The size of a float that is not below zero is the float, but for the sign of a zero. -/
theorem abs_eq_dropZeroSign {x : Float} (finite : x.isFinite = true) (above : ¬x < 0) :
    x.abs = Haulage.dropZeroSign x := by
  rcases unpack_of_isFinite finite with ⟨s, parts⟩ | ⟨s, m, e, pos, parts⟩
  · rcases eq_zero_or_of_unpack parts with rfl | rfl <;> rfl
  · have size : readBack x = x.abs := if_neg above
    have nonzero : ¬(x == 0) = true := by
      intro zero
      rcases eq_zero_or_of_beq zero with rfl | rfl <;> cases parts
    rw [← size, readBack_of_finite parts, Haulage.dropZeroSign, if_neg nonzero]

namespace Expr

theorem exists_toArguments? (e : Expr) (es : List Expr) :
    ∃ as, toArguments? (e :: es) = some as := by
  induction es generalizing e with
  | nil => exact ⟨_, rfl⟩
  | cons e' es ih =>
    obtain ⟨as, rest⟩ := ih e'
    exact ⟨_, by rw [toArguments?, rest]; rfl⟩

/-- Every expression is printed in one piece. -/
theorem rank_toForm (e : Expr) : e.toForm.rank = 6 := by
  cases e with
  | call function es =>
    rw [toForm]
    cases toArguments? es <;> rfl
  | _ => rfl

mutual

/-- What an expression is printed in is well formed. -/
theorem wellFormed_toForm : (e : Expr) → e.toForm.WellFormed
  | number _ | text _ | name _ => trivial
  | signed _ e => ⟨e.wellFormed_toForm, by rw [rank_toForm]; decide⟩
  | binary o l r => by
    refine ⟨l.wellFormed_toForm, r.wellFormed_toForm, ?_⟩
    rw [rank_toForm, rank_toForm]
    cases o.level? with
    | none => exact ⟨by decide, by decide⟩
    | some level => cases level <;> exact ⟨by decide, by decide⟩
  | conditional c a b =>
    ⟨c.wellFormed_toForm, a.wellFormed_toForm, b.wellFormed_toForm, by rw [rank_toForm]; decide⟩
  | call function es => by
    rw [toForm]
    cases arguments : toArguments? es with
    | none => trivial
    | some as => exact wellFormed_toArguments? es as arguments

theorem wellFormed_toArguments? : (es : List Expr) → ∀ as, toArguments? es = some as → as.WellFormed
  | [], _, h => nomatch h
  | [e], as, h => by
    obtain rfl : .last e.toForm = as := Option.some.inj h
    exact e.wellFormed_toForm
  | e :: e' :: es, as, h => by
    obtain ⟨rest, found, rfl⟩ := Option.map_eq_some_iff.mp h
    exact ⟨e.wellFormed_toForm, wellFormed_toArguments? (e' :: es) rest found⟩

end

mutual

/-- What an expression is printed in stands for it, but for the signs of its zeros. -/
theorem expr_toForm : (e : Expr) → e.isPrintable = true → e.toForm.expr = e.dropZeroSign
  | number x, h => by
    simp only [isPrintable, Bool.and_eq_true, Bool.not_eq_true', decide_eq_false_iff_not] at h
    exact congrArg number (abs_eq_dropZeroSign h.1 h.2)
  | text _, _ | name _, _ => rfl
  | signed _ e, h => congrArg (signed _) (e.expr_toForm h)
  | binary _ l r, h => by
    simp only [isPrintable, Bool.and_eq_true] at h
    exact congrArg₂ (binary _) (l.expr_toForm h.1) (r.expr_toForm h.2)
  | conditional c a b, h => by
    simp only [isPrintable, Bool.and_eq_true] at h
    simp only [toForm, Form.expr, c.expr_toForm h.1, a.expr_toForm h.2.1, b.expr_toForm h.2.2,
      dropZeroSign]
  | call function es, h => by
    simp only [isPrintable, Bool.and_eq_true] at h
    rw [toForm, dropZeroSign, ← exprs_toArguments? es h.2]
    cases toArguments? es <;> rfl

theorem exprs_toArguments? : (es : List Expr) → areAllPrintable es = true →
    ((toArguments? es).map Arguments.exprs).getD [] = dropZeroSigns es
  | [], _ => rfl
  | [e], h => by
    simp only [areAllPrintable, Bool.and_true] at h
    exact congrArg (fun e => [e]) (e.expr_toForm h)
  | e :: e' :: es, h => by
    rw [areAllPrintable, Bool.and_eq_true] at h
    have rest := exprs_toArguments? (e' :: es) h.2
    obtain ⟨as, found⟩ := exists_toArguments? e' es
    rw [found] at rest
    rw [toArguments?, found, dropZeroSigns, ← rest, ← e.expr_toForm h.1]
    rfl

end

end Expr

/-! ## 3. The lexemes of a printed expression -/

section Lexemes

variable {s t u : Text} {f g : Form} {x y : List Lexeme}

theorem lexes_parenthesized (phrase : Phrase x) (h : Lexes s x) :
    Lexes s.parenthesized (.symbol .openParen :: (x ++ [.symbol .closeParen])) := by
  have opening : Lexes ['('] [.symbol .openParen] := Lexer.lexes_symbol rfl
  have closing : Lexes [')'] [.symbol .closeParen] := Lexer.lexes_symbol rfl
  have apart := phrase.paren.apart
  exact opening.append (h.append closing apart.of_cons) apart

/-- Two operands with a symbol between them. -/
theorem lexes_join {symbol : Symbol} (phrase : Phrase x) (phrase' : Phrase y) (h : Lexes s x)
    (between : Lexes t [.symbol symbol]) (h' : Lexes u y) :
    Lexes (s ++ (t ++ u)) (x ++ .symbol symbol :: y) := by
  have apart := (phrase.join phrase' symbol).apart
  exact h.append (between.append h' apart.right_of_append) apart

theorem lexes_operator (o : Operator) : Lexes o.spaced [.symbol (.operator o)] := by
  have pair {c d : Char} {s : Symbol} (h : Symbol.ofPair? c d = some s) :
      Lexes [' ', c, d, ' '] [.symbol s] :=
    .blank (by decide) (.token (.pair h) (.blank (by decide) .nil))
  cases o <;> first | exact Lexer.lexes_spaced rfl | exact pair rfl

theorem lexes_name {n : Text} (h : isTokenName n = true) : Lexes n [.name n] := by
  cases n with
  | nil => cases h
  | cons c cs =>
    simp only [isTokenName, Bool.and_eq_true, List.all_eq_true] at h
    have spells : Spells (c :: cs) (.name (c :: cs)) [] :=
      .name h.1 (isDigitLike_of_isNameStart h.1) h.2 rfl
    exact spells.lexes

end Lexemes

namespace Expr

mutual

/-- **A printed expression is cut into the lexemes of its form.** -/
theorem lexes_print : (e : Expr) → e.isPrintable = true → Lexes e.print e.toForm.lexemes
  | number x, h => by
    simp only [isPrintable, Bool.and_eq_true, Bool.not_eq_true', decide_eq_false_iff_not] at h
    have lexes := lexes_numberText h.1
    rwa [Form.ofFloat, if_neg h.2] at lexes
  | text s, _ => Datum.lexes_literal (d := .text s) rfl
  | name _, h => lexes_name h
  | signed sign e, h => by
    have opens : (Lexeme.symbol (.operator sign.operator)).Opens := .inr ⟨sign, rfl⟩
    have phrase := e.toForm.phrase.cons opens
    exact lexes_parenthesized phrase
      ((lexes_operator sign.operator).append (e.lexes_print h) phrase.apart)
  | binary o l r, h => by
    simp only [isPrintable, Bool.and_eq_true] at h
    exact lexes_parenthesized (l.toForm.phrase.join r.toForm.phrase _)
      (lexes_join l.toForm.phrase r.toForm.phrase (l.lexes_print h.1) (lexes_operator o)
        (r.lexes_print h.2))
  | conditional c a b, h => by
    simp only [isPrintable, Bool.and_eq_true] at h
    have branches := a.toForm.phrase.join b.toForm.phrase .colon
    exact lexes_parenthesized (c.toForm.phrase.join branches .question)
      (lexes_join c.toForm.phrase branches (c.lexes_print h.1) (Lexer.lexes_spaced rfl)
        (lexes_join a.toForm.phrase b.toForm.phrase (a.lexes_print h.2.1) (Lexer.lexes_spaced rfl)
          (b.lexes_print h.2.2)))
  | call function [], h => by
    simp only [isPrintable, Bool.and_eq_true] at h
    have parens : Lexes ['(', ')'] [.symbol .openParen, .symbol .closeParen] :=
      (Lexer.lexes_symbol rfl).append (Lexer.lexes_symbol rfl) (by simp [Lexer.Apart])
    exact (lexes_name h.1).append parens (Form.emptyCall function).phrase.apart
  | call function (e :: es), h => by
    simp only [isPrintable, Bool.and_eq_true] at h
    obtain ⟨as, found⟩ := exists_toArguments? e es
    rw [toForm, found]
    exact (lexes_name h.1).append
      (lexes_parenthesized as.phrase (lexes_printAll (e :: es) h.2 as found))
      (Form.call function as).phrase.apart

theorem lexes_printAll : (es : List Expr) → areAllPrintable es = true →
    ∀ as, toArguments? es = some as → Lexes (printAll es) as.lexemes
  | [], _, _, h => nomatch h
  | [e], h, as, found => by
    simp only [areAllPrintable, Bool.and_true] at h
    obtain rfl : .last e.toForm = as := Option.some.inj found
    exact e.lexes_print h
  | e :: e' :: es, h, as, found => by
    rw [areAllPrintable, Bool.and_eq_true] at h
    obtain ⟨rest, found', rfl⟩ := Option.map_eq_some_iff.mp found
    exact lexes_join e.toForm.phrase rest.phrase (e.lexes_print h.1) (Lexer.lexes_symbol rfl)
      (lexes_printAll (e' :: es) h.2 rest found')

end

end Expr

/-! ## 4. How much of a printed expression is open at once -/

/-- What an operator leaves open until its right operand ends. -/
def Operator.pending : Operator → Nat
  | .power => 2
  | _ => 0

namespace Expr

mutual

/-- The greatest weight that the printed expression holds open at once. -/
def weight : Expr → Nat
  | number _ => 0
  | text _ => 0
  | name _ => 0
  | signed _ e => Nesting.parenWeight + (1 + e.weight)
  | binary o l r => Nesting.parenWeight + max l.weight (o.pending + r.weight)
  | conditional c a b => Nesting.parenWeight + max c.weight (1 + max a.weight b.weight)
  | call _ es => Nesting.parenWeight + weights es

/-- The greatest weight that one of the expressions holds open. -/
def weights : List Expr → Nat
  | [] => 0
  | e :: es => max e.weight (weights es)

end

end Expr

namespace Nesting

/-- What is open after some lexemes. -/
def through (n : Nesting) (ls : List Lexeme) : Nesting := ls.foldl (fun n l => n.after ⟨l, 0⟩) n

@[simp] theorem through_nil (n : Nesting) : n.through [] = n := rfl

@[simp] theorem through_cons (n : Nesting) (l : Lexeme) (ls : List Lexeme) :
    n.through (l :: ls) = (n.after ⟨l, 0⟩).through ls := rfl

@[simp] theorem through_append (n : Nesting) (x y : List Lexeme) :
    n.through (x ++ y) = (n.through x).through y := List.foldl_append

/-- The greatest weight is that of the lexemes alone. -/
theorem nesting_lexemes (ls : List Lexeme) :
    nesting (ls.map fun l => ⟨l, 0⟩) = (start.through ls).deepest := by
  rw [nesting, List.foldl_map, through]

/-- Is the same open, with no more held open on the way? -/
structure Within (n m : Nesting) : Prop where
  level : n.level = m.level
  around : n.around = m.around
  expects : n.expectsOperand = m.expectsOperand
  deepest : n.deepest ≤ m.deepest

theorem Within.refl (n : Nesting) : Within n n := ⟨rfl, rfl, rfl, le_rfl⟩

theorem Within.after {n m : Nesting} (h : Within n m) (t : Token) :
    Within (n.after t) (m.after t) := by
  obtain ⟨level, around, expects, deepest⟩ := n
  obtain ⟨_, _, _, deepest'⟩ := m
  obtain ⟨rfl, rfl, rfl, le⟩ := h
  obtain ⟨l, p⟩ := t
  have le : deepest ≤ deepest' := le
  cases l with
  | symbol s => exact ⟨rfl, rfl, rfl, max_le_max le le_rfl⟩
  | _ => exact ⟨rfl, rfl, rfl, le⟩

theorem Within.through {n m : Nesting} (h : Within n m) (ls : List Lexeme) :
    Within (n.through ls) (m.through ls) := by
  induction ls generalizing n m with
  | nil => exact h
  | cons l ls ih => exact ih (h.after ⟨l, 0⟩)

/-- An operand may come next, and what is open now has been counted. -/
structure Ready (n : Nesting) : Prop where
  expects : n.expectsOperand = true
  counted : n.level.weight ≤ n.deepest

/-- The lexemes are an operand: they leave open what was open, and hold so much open in between. -/
def Weighs (ls : List Lexeme) (w : Nat) : Prop :=
  ∀ n : Nesting, n.Ready → n.through ls =
    { n with expectsOperand := false, deepest := max n.deepest (n.level.weight + w) }

/-- The lexemes may stand between parentheses, and hold so much open there. -/
def Fills (ls : List Lexeme) (w : Nat) : Prop :=
  ∀ n : Nesting, n.Ready → n.level.choices = 0 → n.level.pending = 0 →
    ∃ level expects, n.through ls = ⟨level, n.around, expects, max n.deepest (n.level.weight + w)⟩

theorem weighs_single {l : Lexeme} (h : ∀ s, l ≠ .symbol s) : Weighs [l] 0 := by
  intro n ready
  have deepest : max n.deepest (n.level.weight + 0) = n.deepest := max_eq_left ready.counted
  rw [deepest]
  cases l with
  | symbol s => exact absurd rfl (h s)
  | _ => rfl

variable {ls x y z : List Lexeme} {w v u : Nat}

/-- Parentheses close what is open in them. -/
theorem through_parenthesized (h : Fills ls w) {n : Nesting} (counted : n.level.weight ≤ n.deepest) :
    n.through (.symbol .openParen :: (ls ++ [.symbol .closeParen])) =
      { n with expectsOperand := false,
               deepest := max n.deepest (n.level.weight + (parenWeight + w)) } := by
  obtain ⟨level, expects, run⟩ :=
    h (n.after ⟨.symbol .openParen, 0⟩) ⟨rfl, le_max_right ..⟩ rfl rfl
  rw [through_cons, through_append, run]
  have deepest : max (max (max n.deepest (n.level.weight + parenWeight))
      (n.level.weight + parenWeight + w)) n.level.weight =
      max n.deepest (n.level.weight + (parenWeight + w)) := by omega
  exact congrArg (Nesting.mk n.level n.around false) deepest

theorem Fills.parenthesized (h : Fills ls w) :
    Weighs (.symbol .openParen :: (ls ++ [.symbol .closeParen])) (parenWeight + w) :=
  fun _ ready => through_parenthesized h ready.counted

/-- A name in front of parentheses weighs nothing. -/
theorem Fills.called (h : Fills ls w) (n : Text) :
    Weighs (.name n :: .symbol .openParen :: (ls ++ [.symbol .closeParen])) (parenWeight + w) :=
  fun n' ready => through_parenthesized (n := n'.after ⟨.name n, 0⟩) h ready.counted

theorem fills_nil : Fills [] 0 := fun n ready _ _ =>
  ⟨n.level, n.expectsOperand, by rw [through_nil, add_zero, max_eq_left ready.counted]⟩

theorem Weighs.signed (h : Weighs ls w) (sign : Sign) :
    Fills (.symbol (.operator sign.operator) :: ls) (1 + w) := by
  intro n ready _ pending
  have step : n.after ⟨.symbol (.operator sign.operator), 0⟩ =
      ⟨{ n.level with pending := 1 }, n.around, true, max n.deepest (n.level.weight + 1)⟩ := by
    cases sign <;> simp [Nesting.after, afterSymbol, Sign.operator, ready.expects, pending,
      OpenLevel.weight]
  refine ⟨{ n.level with pending := 1 }, false, ?_⟩
  rw [through_cons, step, h _ ⟨rfl, ?_⟩]
  · simp only [OpenLevel.weight, pending, Nesting.mk.injEq, true_and]
    omega
  · simp only [OpenLevel.weight, pending]
    omega

section Behind

-- what is open behind an operand, when a symbol comes

variable (level : OpenLevel) (around : List OpenLevel) (deepest : Nat)

theorem after_operator (pending : level.pending = 0) (o : Operator) :
    (Nesting.mk level around false deepest).after ⟨.symbol (.operator o), 0⟩ =
      ⟨{ level with pending := o.pending }, around, true,
        max deepest (level.weight + o.pending)⟩ := by
  cases o <;> simp [Nesting.after, afterSymbol, Operator.pending, pending, OpenLevel.weight]

theorem after_question (choices : level.choices = 0) (pending : level.pending = 0) :
    (Nesting.mk level around false deepest).after ⟨.symbol .question, 0⟩ =
      ⟨{ level with choices := 1 }, around, true, max deepest (level.weight + 1)⟩ := by
  simp [Nesting.after, afterSymbol, choices, pending, OpenLevel.weight]

theorem after_colon (pending : level.pending = 0) :
    (Nesting.mk level around false deepest).after ⟨.symbol .colon, 0⟩ =
      ⟨level, around, true, max deepest level.weight⟩ := by
  obtain ⟨below, choices, _⟩ := level
  obtain rfl := pending
  rfl

theorem after_semicolon (choices : level.choices = 0) (pending : level.pending = 0) :
    (Nesting.mk level around false deepest).after ⟨.symbol .semicolon, 0⟩ =
      ⟨level, around, true, max deepest level.weight⟩ := by
  obtain ⟨below, _, _⟩ := level
  obtain rfl := choices
  obtain rfl := pending
  rfl

end Behind

theorem Weighs.binary (h : Weighs x w) (h' : Weighs y v) (o : Operator) :
    Fills (x ++ .symbol (.operator o) :: y) (max w (o.pending + v)) := by
  intro n ready _ pending
  refine ⟨{ n.level with pending := o.pending }, false, ?_⟩
  rw [through_append, through_cons, h n ready, after_operator _ _ _ pending, h' _ ⟨rfl, ?_⟩]
  · simp only [OpenLevel.weight, pending, Nesting.mk.injEq, true_and]
    omega
  · simp only [OpenLevel.weight, pending]
    omega

theorem Weighs.choice (h : Weighs x w) (h' : Weighs y v) (h'' : Weighs z u) :
    Fills (x ++ .symbol .question :: (y ++ .symbol .colon :: z)) (max w (1 + max v u)) := by
  intro n ready choices pending
  refine ⟨{ n.level with choices := 1 }, false, ?_⟩
  rw [through_append, through_cons, through_append, through_cons, h n ready,
    after_question _ _ _ choices pending, h' _ ⟨rfl, ?_⟩,
    after_colon { n.level with choices := 1 } _ _ pending, h'' _ ⟨rfl, le_max_right ..⟩]
  · simp only [OpenLevel.weight, choices, pending, Nesting.mk.injEq, true_and]
    omega
  · simp only [OpenLevel.weight, choices, pending]
    omega

theorem Weighs.last (h : Weighs ls w) : Fills ls w := fun n ready _ _ => ⟨n.level, false, h n ready⟩

theorem Weighs.more (h : Weighs x w) (h' : Fills y v) :
    Fills (x ++ .symbol .semicolon :: y) (max w v) := by
  intro n ready choices pending
  have ready' : (Nesting.mk n.level n.around true
      (max (max n.deepest (n.level.weight + w)) n.level.weight)).Ready := ⟨rfl, le_max_right ..⟩
  obtain ⟨level, expects, run⟩ := h' _ ready' choices pending
  refine ⟨level, expects, ?_⟩
  rw [through_append, through_cons, h n ready, after_semicolon _ _ _ choices pending, run]
  simp only [Nesting.mk.injEq, true_and]
  omega

end Nesting

/-- A text is read as an expression when it is cut into the lexemes of a form that stands for it and
does not hold too much open. -/
theorem readExpression_eq_ok_iff {s : Text} {e : Expr} :
    readExpression s = .ok e ↔ ∃ f : Form, f.WellFormed ∧ f.expr = e ∧ Lexer.Lexes s f.lexemes ∧
      (Nesting.start.through f.lexemes).deepest ≤ mostNesting := by
  constructor
  · intro read
    obtain ⟨f, wf, expr, lexes⟩ := parsed_eq_ok_iff.mp (parsed_of_readExpression read)
    refine ⟨f, wf, expr, lexes, Nat.le_of_not_lt fun deep => ?_⟩
    rw [readExpression_eq_ite (parsed_of_readExpression read) lexes, Nesting.nesting_lexemes,
      if_pos deep] at read
    cases read
  · rintro ⟨f, wf, expr, lexes, shallow⟩
    exact readExpression_of_parsed (parsed_eq_ok_iff.mpr ⟨f, wf, expr, lexes⟩) lexes
      ((Nesting.nesting_lexemes _).trans_le shallow)

/-- So it is read when the scan of it is known. -/
theorem readExpression_of_scan {s : Text} {f : Form} (wf : f.WellFormed)
    (scans : (Lexer.scan s).toOption.map (fun scanned => scanned.tokens.map Token.lexeme) =
      some f.lexemes)
    (shallow : (Nesting.start.through f.lexemes).deepest ≤ mostNesting) :
    readExpression s = .ok f.expr := by
  cases run : Lexer.scan s with
  | error e =>
    rw [run] at scans
    cases scans
  | ok scanned =>
    rw [run] at scans
    have lexes := Lexer.lexes_iff_scan.mpr ⟨scanned, run, Option.some.inj scans⟩
    exact readExpression_eq_ok_iff.mpr ⟨f, wf, rfl, lexes, shallow⟩

namespace Expr

open Nesting (Weighs Fills)

mutual

/-- **The weight of a printed expression.** -/
theorem weighs_toForm : (e : Expr) → Weighs e.toForm.lexemes e.weight
  | number _ | text _ | name _ => Nesting.weighs_single nofun
  | signed sign e => (e.weighs_toForm.signed sign).parenthesized
  | binary o l r => (l.weighs_toForm.binary r.weighs_toForm o).parenthesized
  | conditional c a b =>
    (c.weighs_toForm.choice a.weighs_toForm b.weighs_toForm).parenthesized
  | call function [] => Nesting.fills_nil.called function
  | call function (e :: es) => by
    obtain ⟨as, found⟩ := exists_toArguments? e es
    rw [toForm, found]
    exact (fills_toArguments? (e :: es) as found).called function

theorem fills_toArguments? : (es : List Expr) → ∀ as, toArguments? es = some as →
    Fills as.lexemes (weights es)
  | [], _, h => nomatch h
  | [e], as, found => by
    obtain rfl : .last e.toForm = as := Option.some.inj found
    rw [weights, weights, Nat.max_zero]
    exact e.weighs_toForm.last
  | e :: e' :: es, as, found => by
    obtain ⟨rest, found', rfl⟩ := Option.map_eq_some_iff.mp found
    exact e.weighs_toForm.more (fills_toArguments? (e' :: es) rest found')

end

theorem nesting_print (e : Expr) :
    nesting (e.toForm.lexemes.map fun l => ⟨l, 0⟩) = e.weight := by
  have run := e.weighs_toForm .start ⟨rfl, le_rfl⟩
  rw [Nesting.nesting_lexemes, run]
  simp [Nesting.start, OpenLevel.weight]

/-! ## 5. Reading a printed expression -/

/-- **What is printed is read back.**  An expression with a text is parsed from it, but for the signs
of its zeros.  It is read, too, unless its text holds more open at once than is allowed; then it is
refused for that. -/
theorem readExpression_print {e : Expr} (printable : e.isPrintable = true) :
    parsed e.print = .ok e.dropZeroSign ∧
      readExpression e.print =
        if mostNesting < e.weight then .error .tooDeep else .ok e.dropZeroSign := by
  have lexes := e.lexes_print printable
  have parses : parsed e.print = .ok e.dropZeroSign :=
    parsed_eq_ok_iff.mpr ⟨e.toForm, e.wellFormed_toForm, e.expr_toForm printable, lexes⟩
  refine ⟨parses, ?_⟩
  rw [readExpression_eq_ite parses lexes, nesting_print]

theorem readExpression_print_of_call :
    let e : Expr := .conditional
      (.binary .atLeast (.name "ñ_1".toList) (.signed .minus (.number 1e22)))
      (.call "max".toList [.number 0.1, .binary .power (.number 2) (.name "x".toList)])
      (.text "a\\\"; b".toList)
    e.print = "((ñ_1 >= ( - 1e+22)) ? max(0.1;(2 ^ x)) : \"a\\\\\\\"; b\")".toList ∧
      parsed e.print = .ok e ∧ readExpression e.print = .ok e := by
  intro e
  have read := readExpression_print (e := e) (by decide +kernel)
  have kept : Haulage.dropZeroSign 1e22 = 1e22 ∧ Haulage.dropZeroSign 0.1 = 0.1 ∧
      Haulage.dropZeroSign 2 = 2 := by decide +kernel
  have zeros : e.dropZeroSign = e := by
    simp [e, Expr.dropZeroSign, Expr.dropZeroSigns, kept]
  have shallow : ¬mostNesting < e.weight := by decide +kernel
  rw [zeros, if_neg shallow] at read
  exact ⟨by decide +kernel, read⟩

end Expr

end Haulage
