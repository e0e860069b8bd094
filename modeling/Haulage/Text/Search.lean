/-
# Searching a text

A **finder** says what begins at a place of a text, if anything, and how many characters that takes;
it may look at the character in front of the place and at all that follow. A search walks from left
to right and goes on behind whatever it finds, so finds never overlap. Its outcome is the list of
**pieces** of the text: characters that stay, and finds.
-/
import Haulage.Text.Basic

namespace Haulage

/-- What begins at a place: how many characters it takes after the first, and what it says. -/
structure Find (α : Type) where
  more : Nat
  content : α

/-- What begins at a place, given the character in front of it, the one that stands there, and those
that follow. -/
abbrev Finder (α : Type) := Option Char → Char → Text → Option (Find α)

/-- A piece of a text that was searched. -/
inductive Piece (α : Type)
  | kept (c : Char)
  | found (content : α) (length : Nat)

namespace Piece

variable {α : Type}

/-- What was found, if anything. -/
def content? : Piece α → Option α
  | kept _ => none
  | found content _ => some content

/-- The number of characters that a piece takes. -/
def length : Piece α → Nat
  | kept _ => 1
  | found _ length => length

/-- A piece as text, where what is found is text. -/
def text : Piece Text → Text
  | kept c => [c]
  | found s _ => s

end Piece

namespace Finder

variable {α : Type}

/-- The pieces of a text behind a character, when so many of its characters belong to the last
find. -/
def piecesFrom (find : Finder α) (before : Option Char) (skip : Nat) : Text → List (Piece α)
  | [] => []
  | c :: cs =>
    match skip with
    | skip + 1 => piecesFrom find (some c) skip cs
    | 0 =>
      match find before c cs with
      | some f => .found f.content (f.more + 1) :: piecesFrom find (some c) f.more cs
      | none => .kept c :: piecesFrom find (some c) 0 cs

/-- The pieces of a text. -/
def pieces (find : Finder α) (s : Text) : List (Piece α) := find.piecesFrom none 0 s

/-- All that is found in a text. -/
def findAll (find : Finder α) (s : Text) : List α := (find.pieces s).filterMap Piece.content?

/-- Is anything found in a text? -/
def occurs (find : Finder α) (s : Text) : Bool := (find.pieces s).any (·.content?.isSome)

/-- The finds among pieces of which the first stands at a place, each with its own place. -/
def placesFrom (place : Nat) : List (Piece α) → List (Nat × α)
  | [] => []
  | .kept _ :: ps => placesFrom (place + 1) ps
  | .found content length :: ps => (place, content) :: placesFrom (place + length) ps

/-- All that is found in a text, with its place. -/
def places (find : Finder α) (s : Text) : List (Nat × α) := placesFrom 0 (find.pieces s)

/-- The text with every find in place of the characters it takes. -/
def replaceAll (find : Finder Text) (s : Text) : Text := (find.pieces s).flatMap Piece.text

/-- A finder whose finds are shorter than the characters that they take. -/
def Shortens (find : Finder Text) : Prop :=
  ∀ before c cs f, find before c cs = some f → f.content.length ≤ f.more ∧ f.more ≤ cs.length

/-- Behind a find that shortens the text, no more is written than is left. -/
theorem length_piecesFrom_le {find : Finder Text} (shortens : find.Shortens)
    (before : Option Char) (skip : Nat) (s : Text) :
    ((find.piecesFrom before skip s).flatMap Piece.text).length ≤ s.length - skip := by
  induction s generalizing before skip with
  | nil => simp [piecesFrom]
  | cons c cs ih =>
    cases skip with
    | succ skip =>
      have := ih (some c) skip
      simp only [piecesFrom, List.length_cons]
      omega
    | zero =>
      simp only [piecesFrom]
      split
      · next f found =>
        have := shortens _ _ _ _ found
        have := ih (some c) f.more
        simp only [List.flatMap_cons, List.length_append, List.length_cons, Piece.text]
        omega
      · have := ih (some c) 0
        simp only [List.flatMap_cons, List.length_append, List.length_cons, Piece.text,
          List.length_nil]
        omega

/-- A finder that shortens leaves the text as it is or makes it shorter. -/
theorem piecesFrom_eq_or_shorter {find : Finder Text} (shortens : find.Shortens)
    (before : Option Char) (s : Text) :
    (find.piecesFrom before 0 s).flatMap Piece.text = s ∨
      ((find.piecesFrom before 0 s).flatMap Piece.text).length < s.length := by
  induction s generalizing before with
  | nil => exact .inl rfl
  | cons c cs ih =>
    simp only [piecesFrom]
    split
    · next f found =>
      have := shortens _ _ _ _ found
      have := length_piecesFrom_le shortens (some c) f.more cs
      right
      simp only [List.flatMap_cons, List.length_append, List.length_cons, Piece.text]
      omega
    · rcases ih (some c) with same | shorter
      · left
        simp only [List.flatMap_cons, Piece.text, same, List.cons_append, List.nil_append]
      · right
        simp only [List.flatMap_cons, List.length_append, List.length_cons, Piece.text,
          List.length_nil]
        omega

/-- A finder that shortens makes a text shorter or leaves it as it is. -/
theorem length_replaceAll_lt {find : Finder Text} (shortens : find.Shortens) {s : Text}
    (changed : find.replaceAll s ≠ s) : (find.replaceAll s).length < s.length :=
  (piecesFrom_eq_or_shorter shortens none s).resolve_left changed

end Finder

end Haulage
