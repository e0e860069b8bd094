/-
# Faults of a formula's form

Why a text is no formula. `SyntaxFault.message` words each of them.
-/
import Haulage.Formula.Token

namespace Haulage

/-- Why a text is no formula. -/
inductive SyntaxFault
  /-- Characters that start like a number and are none. -/
  | malformedNumber (literal : Text) (position : Nat)
  /-- A text whose closing quote is missing. -/
  | unterminatedText (position : Nat)
  /-- A character that starts no token. -/
  | strayCharacter (c : Char) (position : Nat)
  /-- No tokens at all. -/
  | empty
  /-- A token after the end of the expression. -/
  | trailing (found : Token)
  /-- A token, or the end, where an operand should start. -/
  | noOperand (found : Option Token)
  /-- A token, or the end, where a certain symbol should stand. -/
  | missing (wanted : Symbol) (found : Option Token)
  /-- Parentheses, signs and the like that are open at once beyond the limit. -/
  | tooDeep
deriving DecidableEq

namespace SyntaxFault

/-- The wording of a fault. -/
def message : SyntaxFault → String
  | malformedNumber literal position =>
    let shown := String.ofList literal
    s!"Invalid number literal '{shown}' at position {position}"
  | unterminatedText position => s!"Unterminated string starting at position {position}"
  | strayCharacter c position => s!"Unexpected character '{c}' at position {position}"
  | empty => "Empty expression"
  | trailing found => "Extra tokens after expression: " ++ String.ofList (shownToken (some found))
  | noOperand found => "Unexpected token: " ++ String.ofList (shownToken found)
  | missing wanted found =>
    let shown := String.ofList (shownToken found)
    s!"Unexpected token {shown}, expected TokenType.{wanted.name}"
  | tooDeep => "Expression is nested too deeply"

/-- The place up to which a fault's tokens had been read, where it concerns a token. -/
def position? : SyntaxFault → Option Nat
  | trailing found => some found.position
  | noOperand found => found.map (·.position)
  | missing _ found => found.map (·.position)
  | _ => none

end SyntaxFault

end Haulage
