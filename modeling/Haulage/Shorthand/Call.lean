/-
# Calls in a text

A call is a name, an opening parenthesis -- blanks may stand in front of it -- and everything up to
the parenthesis that closes it. Calls are found in the text as it is written, before it is read as
a formula, so parentheses and separators count wherever they stand.
-/
import Haulage.Text.Search
import Haulage.Text.Word
import Haulage.Text.Blank
import Haulage.Text.CaseFold

namespace Haulage

/-! ## 1. Arguments -/

/-- The number of open parentheses after a character. -/
def depthAfter (depth : Int) (c : Char) : Int :=
  if c == '(' then depth + 1 else if c == ')' then depth - 1 else depth

/-- The parts of a text between the separators that stand in no parenthesis, when so many are open
at its start. -/
def splitAtDepth (isSeparator : Char → Bool) (depth : Int) : Text → List Text
  | [] => [[]]
  | c :: cs =>
    let depth := depthAfter depth c
    if isSeparator c && depth == 0 then [] :: splitAtDepth isSeparator depth cs
    else match splitAtDepth isSeparator depth cs with
      | [] => [[c]]
      | part :: parts => (c :: part) :: parts

/-- The arguments that a text lists, without the blanks around them. -/
def splitArguments (isSeparator : Char → Bool) (body : Text) : List Text :=
  (splitAtDepth isSeparator 0 body).map Text.strip

/-- The arguments between semicolons. -/
def semicolonArguments (body : Text) : List Text := splitArguments (· == ';') body

/-- A text lists at least one argument, be it empty. -/
theorem splitAtDepth_ne_nil (isSeparator : Char → Bool) (depth : Int) (s : Text) :
    splitAtDepth isSeparator depth s ≠ [] := by
  cases s with
  | nil => simp [splitAtDepth]
  | cons c cs =>
    simp only [splitAtDepth]
    split
    · simp
    · split <;> simp

/-! ## 2. Heads and bodies -/

/-- The start of a call. -/
structure CallHead where
  /-- The name as it is written. -/
  name : Text
  /-- The number of characters up to the opening parenthesis, which is counted. -/
  length : Nat

/-- The head of a call that begins at a place, if one does. -/
abbrev HeadFinder := Option Char → Char → Text → Option CallHead

/-- The number of characters up to the opening parenthesis, it included, if there are only blanks
in front of it. -/
def openingLength? (s : Text) : Option Nat :=
  match s.dropWhile isBlank with
  | '(' :: _ => some ((s.takeWhile isBlank).length + 1)
  | _ => none

/-- What follows a word at the start of a text, letters of either case being the same. -/
def dropSame? : Text → Text → Option Text
  | [], s => some s
  | _ :: _, [] => none
  | w :: ws, c :: cs => if sameLetter w c then dropSame? ws cs else none

/-- Finds heads of calls by one name, in letters of either case. -/
def headNamed (name : Text) : HeadFinder := fun before c cs =>
  if isBoundary before (some c) then
    match dropSame? name (c :: cs) with
    | some rest =>
      (openingLength? rest).map fun n => ⟨(c :: cs).take name.length, name.length + n⟩
    | none => none
  else none

/-- May the character start the name of a variable or of a call? Letters outside ASCII may not. -/
def startsIdentifier (c : Char) : Bool := c.isAlpha

/-- Finds heads of calls by any name. -/
def anyHead : HeadFinder := fun before c cs =>
  if startsIdentifier c && !inWord before then
    let name := c :: cs.takeWhile isNameChar
    (openingLength? (cs.dropWhile isNameChar)).map fun n => ⟨name, name.length + n⟩
  else none

/-- The characters up to the parenthesis that closes a call, when so many others are open. -/
def bodyOf? : Nat → Text → Option Text
  | _, [] => none
  | depth, c :: cs =>
    if c == '(' then (bodyOf? (depth + 1) cs).map (c :: ·)
    else if c == ')' then
      match depth with
      | 0 => some []
      | depth + 1 => (bodyOf? depth cs).map (c :: ·)
    else (bodyOf? depth cs).map (c :: ·)

/-! ## 3. Call sites -/

/-- A call where it stands in a text. -/
structure CallSite where
  /-- The name as it is written. -/
  name : Text
  /-- The place of its first character. -/
  start : Nat
  /-- The place behind its closing parenthesis. -/
  finish : Nat
  /-- What stands between its parentheses. -/
  body : Text
deriving DecidableEq

/-- Finds heads, each with its body if that is closed. -/
def headsWithBodies (head : HeadFinder) : Finder (CallHead × Option Text) := fun before c cs =>
  (head before c cs).map fun h => ⟨h.length - 1, h, bodyOf? 0 ((c :: cs).drop h.length)⟩

/-- The calls in a text that are closed, the nested ones too. -/
def callSites (head : HeadFinder) (s : Text) : List CallSite :=
  ((headsWithBodies head).places s).filterMap fun (start, h, body?) =>
    body?.map fun body => ⟨h.name, start, start + h.length + body.length + 1, body⟩

/-- Finds the heads of the calls by a name, or of all calls where the name is left out or empty. -/
def headFor : Option Text → HeadFinder
  | some (c :: cs) => headNamed (c :: cs)
  | _ => anyHead

/-- Finds closed calls by a name whose arguments another text can stand for, and puts that text
there. -/
def spellableCalls (name : Text) (spell : List Text → Option Text) : Finder Text :=
  fun before c cs =>
    match headNamed name before c cs with
    | none => none
    | some h =>
      match bodyOf? 0 ((c :: cs).drop h.length) with
      | none => none
      | some body =>
        (spell (semicolonArguments body)).map fun s => ⟨h.length + body.length, s⟩

/-- Finds calls by a name with nothing but blanks between the parentheses. -/
def emptyCalls (name : Text) : Finder Unit := fun before c cs =>
  match headNamed name before c cs with
  | none => none
  | some h =>
    let inside := (c :: cs).drop h.length
    match inside.dropWhile isBlank with
    | ')' :: _ => some ⟨h.length + (inside.takeWhile isBlank).length, ()⟩
    | _ => none

end Haulage
