/-
# Tokens

A formula is read as a sequence of tokens: numbers, texts between double quotes, names, and symbols.
Every symbol has one spelling. A token remembers the place of its first character, so a fault can
say where it is.
-/
import Haulage.Number.Notation

namespace Haulage

/-- The operators between two operands. -/
inductive Operator
  | plus | minus | times | divide | modulo | power
  | greater | less | atLeast | atMost | equal | notEqual
deriving DecidableEq, Repr, Inhabited

/-- The symbols of the formula language. -/
inductive Symbol
  | operator (o : Operator)
  | openParen | closeParen | comma | semicolon | question | colon
deriving DecidableEq, Repr

/-- What a token stands for. -/
inductive Lexeme
  | number (x : Float)
  | text (s : Text)
  | name (s : Text)
  | symbol (s : Symbol)
deriving DecidableEq

/-- A lexeme and the place of its first character in the formula. -/
structure Token where
  lexeme : Lexeme
  position : Nat
deriving DecidableEq

namespace Operator

/-- How an operator is written. -/
def spelling : Operator → String
  | plus => "+"
  | minus => "-"
  | times => "*"
  | divide => "/"
  | modulo => "%"
  | power => "^"
  | greater => ">"
  | less => "<"
  | atLeast => ">="
  | atMost => "<="
  | equal => "=="
  | notEqual => "!="

/-- The name of an operator in a message. -/
def name : Operator → String
  | plus => "PLUS"
  | minus => "MINUS"
  | times => "MUL"
  | divide => "DIV"
  | modulo => "MOD"
  | power => "POW"
  | greater => "GT"
  | less => "LT"
  | atLeast => "GTE"
  | atMost => "LTE"
  | equal => "EQ"
  | notEqual => "NE"

/-- All operators. -/
def all : List Operator :=
  [plus, minus, times, divide, modulo, power, greater, less, atLeast, atMost, equal, notEqual]

/-- The list of operators is complete. -/
theorem mem_all (o : Operator) : o ∈ all := by cases o <;> decide

end Operator

namespace Symbol

/-- How a symbol is written. -/
def spelling : Symbol → String
  | operator o => o.spelling
  | openParen => "("
  | closeParen => ")"
  | comma => ","
  | semicolon => ";"
  | question => "?"
  | colon => ":"

/-- The name of a symbol in a message. -/
def name : Symbol → String
  | operator o => o.name
  | openParen => "LPAREN"
  | closeParen => "RPAREN"
  | comma => "COMMA"
  | semicolon => "SEMICOLON"
  | question => "QUESTION"
  | colon => "COLON"

/-- The symbol of two characters that starts with them. -/
def ofPair? : Char → Char → Option Symbol
  | '>', '=' => some (operator .atLeast)
  | '<', '=' => some (operator .atMost)
  | '=', '=' => some (operator .equal)
  | '!', '=' => some (operator .notEqual)
  | _, _ => none

/-- The symbol of one character. -/
def ofChar? : Char → Option Symbol
  | '+' => some (operator .plus)
  | '-' => some (operator .minus)
  | '*' => some (operator .times)
  | '/' => some (operator .divide)
  | '%' => some (operator .modulo)
  | '^' => some (operator .power)
  | '>' => some (operator .greater)
  | '<' => some (operator .less)
  | '(' => some openParen
  | ')' => some closeParen
  | ',' => some comma
  | ';' => some semicolon
  | '?' => some question
  | ':' => some colon
  | _ => none

end Symbol

namespace Lexeme

/-- The name of the kind of a lexeme in a message. -/
def kindName : Lexeme → String
  | number _ => "NUMBER"
  | text _ => "STRING"
  | name _ => "IDENTIFIER"
  | symbol s => s.name

/-- What a lexeme stands for, in a message. -/
def content : Lexeme → Text
  | number x => floatText x
  | text s => s
  | name s => s
  | symbol s => s.spelling.toList

end Lexeme

/-- A token in a message; the end of the formula is shown as one too. -/
def shownToken : Option Token → Text
  | some t => s!"Token(TokenType.{t.lexeme.kindName}, ".toList ++ t.lexeme.content ++ [')']
  | none => "Token(TokenType.EOF, None)".toList

end Haulage
