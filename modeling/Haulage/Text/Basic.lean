/-
# Text

A text is the list of its characters. Formulas, names and string values are texts, so that reading
them is recursion on a list; fixed wording stays a `String`.
-/

namespace Haulage

/-- A sequence of characters. -/
abbrev Text := List Char

/-- Does the character lie in one of the ranges, ends included? -/
def inRanges (ranges : List (Nat × Nat)) (c : Char) : Bool :=
  ranges.any fun (first, last) => first ≤ c.toNat && c.toNat ≤ last

namespace Text

/-- The parts between the occurrences of a separator; a text without it is one part. -/
def splitAtChar (separator : Char) : Text → List Text
  | [] => [[]]
  | c :: cs =>
    if c == separator then [] :: splitAtChar separator cs
    else match splitAtChar separator cs with
      | [] => [[c]]
      | part :: parts => (c :: part) :: parts

/-- The text with every occurrence of one character replaced by another. -/
def replaceChar (old new : Char) (s : Text) : Text := s.map fun c => if c == old then new else c

/-- Does the text occur in `s`? -/
def occursIn (pattern : Text) : Text → Bool
  | [] => pattern.isEmpty
  | c :: cs => pattern.isPrefixOf (c :: cs) || occursIn pattern cs

/-- The texts one after the other with a separator between neighbours. -/
def join (separator : Text) : List Text → Text
  | [] => []
  | [part] => part
  | part :: parts => part ++ separator ++ join separator parts

/-- A text is never split into no parts. -/
theorem splitAtChar_ne_nil (separator : Char) (s : Text) : splitAtChar separator s ≠ [] := by
  cases s with
  | nil => simp [splitAtChar]
  | cons c cs =>
    simp only [splitAtChar]
    split
    · simp
    · split <;> simp

@[simp] theorem length_replaceChar (old new : Char) (s : Text) :
    (replaceChar old new s).length = s.length := by
  simp [replaceChar]

end Text

end Haulage
