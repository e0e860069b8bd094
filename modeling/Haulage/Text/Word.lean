/-
# Words and their boundaries

A word is an unbroken run of letters, numerals and underscores. A place in a text is a **boundary**
when exactly one of its two neighbours belongs to a word; both ends of a text count as neighbours
that do not.
-/
import Haulage.Text.Letter
import Haulage.Text.Numeral

namespace Haulage

/-- May the character stand in a name after its first place? -/
def isNameChar (c : Char) : Bool := isLetter c || isNumeral c || c == '_'

/-- May the character start a name? -/
def isNameStart (c : Char) : Bool := isLetter c || c == '_'

/-- What may start a name may also stand inside it. -/
theorem isNameChar_of_isNameStart {c : Char} (h : isNameStart c = true) : isNameChar c = true := by
  simp only [isNameStart, Bool.or_eq_true] at h
  simp only [isNameChar, Bool.or_eq_true]
  rcases h with h | h
  · exact .inl (.inl h)
  · exact .inr h

/-- Does the neighbour, if there is one, belong to a word? -/
def inWord (neighbour : Option Char) : Bool := neighbour.any isNameChar

/-- Is the place between the two neighbours a boundary? -/
def isBoundary (before after : Option Char) : Bool := inWord before != inWord after

@[simp] theorem inWord_none : inWord none = false := rfl

@[simp] theorem inWord_some (c : Char) : inWord (some c) = isNameChar c := rfl

end Haulage
