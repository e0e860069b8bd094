/-
# Texts on display

`Text.quoted` shows a text as it is reported to a person: between quotes, with a backslash in front
of what cannot stand as it is. Single quotes are used unless the text holds one and no double quote.
-/
import Haulage.Text.Printable

namespace Haulage

/-- The hexadecimal digits of a number, at least so many. -/
def hexDigits (width n : Nat) : Text :=
  let digits := Nat.toDigits 16 n
  List.replicate (width - digits.length) '0' ++ digits

/-- The code of a character after a backslash, in the shortest of three widths. -/
def codeEscape (c : Char) : Text :=
  if c.toNat < 0x100 then '\\' :: 'x' :: hexDigits 2 c.toNat
  else if c.toNat < 0x10000 then '\\' :: 'u' :: hexDigits 4 c.toNat
  else '\\' :: 'U' :: hexDigits 8 c.toNat

/-- A character as it stands between quotes of the given kind. -/
def displayChar (quote c : Char) : Text :=
  if c == quote || c == '\\' then ['\\', c]
  else if c == '\t' then ['\\', 't']
  else if c == '\n' then ['\\', 'n']
  else if c == '\r' then ['\\', 'r']
  else if isPrintable c then [c]
  else codeEscape c

namespace Text

/-- The quote that a text is shown between. -/
def displayQuote (s : Text) : Char :=
  if s.contains '\'' && !s.contains '"' then '"' else '\''

/-- The text between quotes. -/
def quoted (s : Text) : Text :=
  let quote := s.displayQuote
  quote :: (s.flatMap (displayChar quote) ++ [quote])

end Text

end Haulage
