/-
# Reading expressions

`Parser.parse` builds the syntax tree of a row of tokens. The grammar, loosest first:

    conditional := comparison ('?' conditional ':' conditional)?
    comparison  := additive (('>' | '<' | '>=' | '<=' | '==' | '!=') additive)*
    additive    := term (('+' | '-') term)*
    term        := unary (('*' | '/' | '%') unary)*
    unary       := ('+' | '-') unary | power
    power       := primary ('^' unary)?
    primary     := number | text | name | name '(' arguments? ')' | '(' conditional ')'
    arguments   := conditional ((',' | ';') conditional)*

The three levels of operators that group to the left share one reader, `chain`, which is told the
level. Every reader hands back the tokens it did not use with a proof that they are fewer, and that
is why reading ends.
-/
import Haulage.Formula.SyntaxFault
import Haulage.Formula.Syntax

namespace Haulage

/-- The levels of operators that group to the left. -/
inductive Level
  | comparison | additive | term
deriving DecidableEq, Repr

/-- The height of a level above the operands of the tightest one. -/
def Level.height : Level → Nat
  | .comparison => 8
  | .additive => 6
  | .term => 4

/-- The level of an operator that groups to the left; powers do not. -/
def Operator.level? : Operator → Option Level
  | .greater | .less | .atLeast | .atMost | .equal | .notEqual => some .comparison
  | .plus | .minus => some .additive
  | .times | .divide | .modulo => some .term
  | .power => none

/-- The sign that an operator can be in front of an operand. -/
def Operator.sign? : Operator → Option Sign
  | .plus => some .plus
  | .minus => some .minus
  | _ => none

namespace Parser

/-- What a reader makes of tokens: a result, and fewer tokens than the bound. -/
structure Parsed (α : Type) (bound : Nat) where
  result : α
  rest : List Token
  fewer : rest.length < bound

/-- The same result where there were more tokens. -/
def Parsed.widen {α : Type} {few many : Nat} (p : Parsed α few) (h : few ≤ many) :
    Parsed α many :=
  ⟨p.result, p.rest, Nat.lt_of_lt_of_le p.fewer h⟩

/-- The operator that a row of tokens starts with, if it is of the level. -/
def operatorOf? (level : Level) : List Token → Option (Operator × List Token)
  | ⟨.symbol (.operator o), _⟩ :: rest => if o.level? = some level then some (o, rest) else none
  | _ => none

/-- The sign that a row of tokens starts with. -/
def signOf? : List Token → Option (Sign × List Token)
  | ⟨.symbol (.operator o), _⟩ :: rest => o.sign?.map (·, rest)
  | _ => none

/-- The tokens after a symbol that a row of tokens starts with. -/
def after? (wanted : Symbol) : List Token → Option (List Token)
  | ⟨.symbol s, _⟩ :: rest => if s = wanted then some rest else none
  | _ => none

/-- The tokens after an argument separator that a row of tokens starts with. -/
def afterSeparator? (tokens : List Token) : Option (List Token) :=
  (after? .comma tokens).or (after? .semicolon tokens)

theorem length_of_operatorOf? {level : Level} {tokens rest : List Token} {o : Operator}
    (h : operatorOf? level tokens = some (o, rest)) : rest.length < tokens.length := by
  unfold operatorOf? at h
  split at h
  · split at h
    · obtain ⟨-, rfl⟩ := by simpa using h
      simp
    · simp at h
  · simp at h

theorem length_of_signOf? {tokens rest : List Token} {s : Sign}
    (h : signOf? tokens = some (s, rest)) : rest.length < tokens.length := by
  unfold signOf? at h
  split at h
  · simp only [Option.map_eq_some_iff] at h
    obtain ⟨_, -, e⟩ := h
    obtain ⟨-, rfl⟩ := by simpa using e
    simp
  · simp at h

theorem length_of_after? {wanted : Symbol} {tokens rest : List Token}
    (h : after? wanted tokens = some rest) : rest.length < tokens.length := by
  unfold after? at h
  split at h
  · split at h
    · obtain rfl := by simpa using h
      simp
    · simp at h
  · simp at h

theorem length_of_afterSeparator? {tokens rest : List Token}
    (h : afterSeparator? tokens = some rest) : rest.length < tokens.length := by
  unfold afterSeparator? at h
  simp only [Option.or_eq_some_iff] at h
  rcases h with h | ⟨-, h⟩
  · exact length_of_after? h
  · exact length_of_after? h

mutual

/-- A comparison, or one with two alternatives after it. -/
def conditional (tokens : List Token) : Except SyntaxFault (Parsed Expr tokens.length) :=
  match chain .comparison tokens with
  | .error f => .error f
  | .ok condition =>
    match _question : after? .question condition.rest with
    | none => .ok condition
    | some rest =>
      match conditional rest with
      | .error f => .error f
      | .ok whenTrue =>
        match _colon : after? .colon whenTrue.rest with
        | none => .error (.missing .colon whenTrue.rest.head?)
        | some rest' =>
          match conditional rest' with
          | .error f => .error f
          | .ok whenFalse =>
            .ok ⟨.conditional condition.result whenTrue.result whenFalse.result, whenFalse.rest, by
              have := condition.fewer
              have := length_of_after? _question
              have := whenTrue.fewer
              have := length_of_after? _colon
              have := whenFalse.fewer
              omega⟩
termination_by (tokens.length, 10)
decreasing_by
  · exact Prod.Lex.right _ (by decide)
  · have := condition.fewer
    have := length_of_after? _question
    exact Prod.Lex.left _ _ (by omega)
  · have := condition.fewer
    have := length_of_after? _question
    have := whenTrue.fewer
    have := length_of_after? _colon
    exact Prod.Lex.left _ _ (by omega)

/-- Operands joined by operators of a level. -/
def chain (level : Level) (tokens : List Token) : Except SyntaxFault (Parsed Expr tokens.length) :=
  match operand level tokens with
  | .error f => .error f
  | .ok first =>
    match chainFrom level first.result first.rest with
    | .error f => .error f
    | .ok whole => .ok (whole.widen first.fewer)
termination_by (tokens.length, level.height + 1)
decreasing_by
  · exact Prod.Lex.right _ (by omega)
  · exact Prod.Lex.left _ _ first.fewer

/-- What is read so far, joined with further operands by operators of a level. -/
def chainFrom (level : Level) (left : Expr) (tokens : List Token) :
    Except SyntaxFault (Parsed Expr (tokens.length + 1)) :=
  match _operator : operatorOf? level tokens with
  | none => .ok ⟨left, tokens, Nat.lt_succ_self _⟩
  | some (o, rest) =>
    match operand level rest with
    | .error f => .error f
    | .ok right =>
      match chainFrom level (.binary o left right.result) right.rest with
      | .error f => .error f
      | .ok whole => .ok (whole.widen (by
          have := right.fewer
          have := length_of_operatorOf? _operator
          omega))
termination_by (tokens.length, 0)
decreasing_by
  · exact Prod.Lex.left _ _ (length_of_operatorOf? _operator)
  · have := right.fewer
    have := length_of_operatorOf? _operator
    exact Prod.Lex.left _ _ (by omega)

/-- An operand of a level: whatever binds more tightly. -/
def operand (level : Level) (tokens : List Token) :
    Except SyntaxFault (Parsed Expr tokens.length) :=
  match level with
  | .comparison => chain .additive tokens
  | .additive => chain .term tokens
  | .term => unary tokens
termination_by (tokens.length, level.height)
decreasing_by all_goals exact Prod.Lex.right _ (by decide)

/-- An operand with signs in front of it. -/
def unary (tokens : List Token) : Except SyntaxFault (Parsed Expr tokens.length) :=
  match _sign : signOf? tokens with
  | some (sign, rest) =>
    match unary rest with
    | .error f => .error f
    | .ok inner =>
      .ok ⟨.signed sign inner.result, inner.rest,
        Nat.lt_trans inner.fewer (length_of_signOf? _sign)⟩
  | none => power tokens
termination_by (tokens.length, 3)
decreasing_by
  · exact Prod.Lex.left _ _ (length_of_signOf? _sign)
  · exact Prod.Lex.right _ (by decide)

/-- A primary, perhaps raised to a power, which may have signs of its own. -/
def power (tokens : List Token) : Except SyntaxFault (Parsed Expr tokens.length) :=
  match primary tokens with
  | .error f => .error f
  | .ok base =>
    match _caret : after? (.operator .power) base.rest with
    | none => .ok base
    | some rest =>
      match unary rest with
      | .error f => .error f
      | .ok exponent =>
        .ok ⟨.binary .power base.result exponent.result, exponent.rest, by
          have := base.fewer
          have := length_of_after? _caret
          have := exponent.fewer
          omega⟩
termination_by (tokens.length, 2)
decreasing_by
  · exact Prod.Lex.right _ (by decide)
  · have := base.fewer
    have := length_of_after? _caret
    exact Prod.Lex.left _ _ (by omega)

/-- A number, a text, a name, a call, or an expression between parentheses. -/
def primary (tokens : List Token) : Except SyntaxFault (Parsed Expr tokens.length) :=
  match tokens with
  | ⟨.number x, _⟩ :: rest => .ok ⟨.number x, rest, Nat.lt_succ_self _⟩
  | ⟨.text s, _⟩ :: rest => .ok ⟨.text s, rest, Nat.lt_succ_self _⟩
  | ⟨.name name, _⟩ :: rest =>
    match _paren : after? .openParen rest with
    | none => .ok ⟨.name name, rest, Nat.lt_succ_self _⟩
    | some inside =>
      match _empty : after? .closeParen inside with
      | some rest' =>
        .ok ⟨.call name [], rest', by
          have := length_of_after? _paren
          have := length_of_after? _empty
          simp only [List.length_cons]
          omega⟩
      | none =>
        match arguments inside with
        | .error f => .error f
        | .ok args =>
          match _close : after? .closeParen args.rest with
          | none => .error (.missing .closeParen args.rest.head?)
          | some rest' =>
            .ok ⟨.call name args.result, rest', by
              have := length_of_after? _paren
              have := args.fewer
              have := length_of_after? _close
              simp only [List.length_cons]
              omega⟩
  | ⟨.symbol .openParen, _⟩ :: inside =>
    match conditional inside with
    | .error f => .error f
    | .ok inner =>
      match _close : after? .closeParen inner.rest with
      | none => .error (.missing .closeParen inner.rest.head?)
      | some rest' =>
        .ok ⟨inner.result, rest', by
          have := inner.fewer
          have := length_of_after? _close
          simp only [List.length_cons]
          omega⟩
  | tokens => .error (.noOperand tokens.head?)
termination_by (tokens.length, 1)
decreasing_by
  · have := length_of_after? _paren
    exact Prod.Lex.left _ _ (by simp only [List.length_cons]; omega)
  · exact Prod.Lex.left _ _ (by simp)

/-- One or more arguments with separators between them. -/
def arguments (tokens : List Token) : Except SyntaxFault (Parsed (List Expr) tokens.length) :=
  match conditional tokens with
  | .error f => .error f
  | .ok first =>
    match _separator : afterSeparator? first.rest with
    | none => .ok ⟨[first.result], first.rest, first.fewer⟩
    | some rest =>
      match arguments rest with
      | .error f => .error f
      | .ok more =>
        .ok ⟨first.result :: more.result, more.rest, by
          have := first.fewer
          have := length_of_afterSeparator? _separator
          have := more.fewer
          omega⟩
termination_by (tokens.length, 11)
decreasing_by
  · exact Prod.Lex.right _ (by decide)
  · have := first.fewer
    have := length_of_afterSeparator? _separator
    exact Prod.Lex.left _ _ (by omega)

end

/-- The expression that a row of tokens is, from the first to the last. -/
def parse (tokens : List Token) : Except SyntaxFault Expr :=
  if tokens.isEmpty then .error .empty
  else match conditional tokens with
    | .error f => .error f
    | .ok whole =>
      match whole.rest with
      | [] => .ok whole.result
      | t :: _ => .error (.trailing t)

end Parser

end Haulage
