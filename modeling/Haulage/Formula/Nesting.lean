/-
# How deep a formula nests

Formulas nest without bound, but one that holds too much open at once is refused. The measure goes
over the tokens from left to right: a parenthesis weighs seven while it is open; inside it a sign
weighs one and a power two until another operator comes, and a `?` weighs one to the end. A formula
may reach a weight of 970, which leaves room for 138 parentheses inside each other.

A formula that is refused for another reason is measured only up to the token at fault.
-/
import Haulage.Formula.Parser
import Haulage.Formula.Lexer

namespace Haulage

/-- What is open inside one parenthesis. -/
structure OpenLevel where
  /-- The weight of all that was open when the parenthesis was reached, and its own. -/
  below : Nat
  /-- The number of question marks. -/
  choices : Nat
  /-- The weight of the signs and powers that wait for an operand to end. -/
  pending : Nat

/-- The weight of a level and of everything around it. -/
def OpenLevel.weight (l : OpenLevel) : Nat := l.below + l.choices + l.pending

/-- What is open at a place in a formula. -/
structure Nesting where
  /-- The innermost level. -/
  level : OpenLevel
  /-- The levels around it, from the inside out. -/
  around : List OpenLevel
  /-- Is an operand expected next? -/
  expectsOperand : Bool
  /-- The greatest weight so far. -/
  deepest : Nat

namespace Nesting

/-- Nothing is open at the start. -/
def start : Nesting := ⟨⟨0, 0, 0⟩, [], true, 0⟩

/-- The weight of a parenthesis. -/
def parenWeight : Nat := 7

/-- The levels after a symbol, and whether an operand is expected next. -/
def afterSymbol (n : Nesting) : Symbol → OpenLevel × List OpenLevel × Bool
  | .openParen => (⟨n.level.weight + parenWeight, 0, 0⟩, n.level :: n.around, true)
  | .closeParen =>
    match n.around with
    | [] => (n.level, [], false)
    | outer :: around => (outer, around, false)
  | .comma | .semicolon => ({ n.level with choices := 0, pending := 0 }, n.around, true)
  | .question =>
    ({ n.level with choices := n.level.choices + 1, pending := 0 }, n.around, true)
  | .colon => ({ n.level with pending := 0 }, n.around, true)
  | .operator .power => ({ n.level with pending := n.level.pending + 2 }, n.around, true)
  | .operator _ =>
    ({ n.level with pending := if n.expectsOperand then n.level.pending + 1 else 0 }, n.around,
      true)

/-- What is open after a token. -/
def after (n : Nesting) (t : Token) : Nesting :=
  match t.lexeme with
  | .symbol s =>
    let (level, around, expectsOperand) := n.afterSymbol s
    ⟨level, around, expectsOperand, max n.deepest level.weight⟩
  | _ => { n with expectsOperand := false }

end Nesting

/-- The greatest weight that a row of tokens holds open at once. -/
def nesting (tokens : List Token) : Nat := (tokens.foldl Nesting.after .start).deepest

/-- The greatest weight that a formula may hold open at once. -/
def mostNesting : Nat := 970

/-- The expression that a text stands for. -/
def readExpression (s : Text) : Except SyntaxFault Expr :=
  match Lexer.scan s with
  | .error f => .error f
  | .ok scanned =>
    let parsed := Parser.parse scanned.tokens
    let used := match parsed with
      | .ok _ => scanned.tokens
      | .error f =>
        match f.position? with
        | some place => scanned.tokens.takeWhile (·.position < place)
        | none => scanned.tokens
    if mostNesting < nesting used then .error .tooDeep else parsed

end Haulage
