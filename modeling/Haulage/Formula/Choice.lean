/-
# Choices between numbers

A choice in parentheses whose condition and alternatives are all written as numbers can be made
without evaluating anything: its text is that of the first alternative if the condition is above
zero, and else that of the second. `simplifyChoices` does so until no such choice is left, which
also serves expressions that are no formula as they stand. Every choice that is made shortens the
text, so this ends.
-/
import Haulage.Text.Search
import Haulage.Number.Reader

namespace Haulage

namespace NumericChoice

/-! ## 1. Numbers in a text -/

/-- The number of decimal digits that a text starts with. -/
def digitCount (s : Text) : Nat := (s.takeWhile isDecimalDigit).length

/-- The length of a point with digits behind it. -/
def fractionLength : Text → Nat
  | '.' :: cs => if digitCount cs = 0 then 0 else digitCount cs + 1
  | _ => 0

/-- The length of a mark with an exponent behind it. -/
def exponentLength : Text → Nat
  | [] => 0
  | c :: cs =>
    if c == 'e' || c == 'E' then
      match cs with
      | [] => 0
      | d :: ds =>
        if d == '+' || d == '-' then if digitCount ds = 0 then 0 else digitCount ds + 2
        else if digitCount cs = 0 then 0 else digitCount cs + 1
    else 0

/-- The length of the unsigned number that a text starts with, if it starts with one. -/
def unsignedLength? (s : Text) : Option Nat :=
  let whole := digitCount s
  if whole = 0 then none
  else
    let decimal := whole + fractionLength (s.drop whole)
    some (decimal + exponentLength (s.drop decimal))

/-- The length of the number that a text starts with. A negative one may stand in parentheses. -/
def numberLength? : Text → Option Nat
  | '(' :: '-' :: s =>
    match unsignedLength? s with
    | some n => if (s.drop n).head? == some ')' then some (n + 3) else none
    | none => none
  | '-' :: s => (unsignedLength? s).map (· + 1)
  | s => unsignedLength? s

/-- The number that a text starts with after blanks, and what follows it. -/
def takeNumber? (s : Text) : Option (Text × Text) :=
  let s := s.dropWhile isBlank
  (numberLength? s).map fun n => (s.take n, s.drop n)

/-- What follows a character that stands at the start of a text after blanks. -/
def dropSymbol? (symbol : Char) (s : Text) : Option Text :=
  match s.dropWhile isBlank with
  | [] => none
  | c :: cs => if c == symbol then some cs else none

/-! ## 2. Choices in a text -/

/-- Is the number above zero? -/
def isPositive (literal : Text) : Bool :=
  (readFloat? (literal.filter fun c => c != '(' && c != ')')).any (0 < ·)

/-- The alternative that is chosen and the text behind the choice, from what follows its opening
parenthesis. -/
def choose? (s : Text) : Option (Text × Text) := do
  let (condition, s) ← takeNumber? s
  let s ← dropSymbol? '?' s
  let (whenPositive, s) ← takeNumber? s
  let s ← dropSymbol? ':' s
  let (otherwise, s) ← takeNumber? s
  let s ← dropSymbol? ')' s
  some (if isPositive condition then whenPositive else otherwise, s)

/-- Finds choices between numbers, and puts the alternative there that is chosen. -/
def choices : Finder Text := fun _ c cs =>
  if c == '(' then (choose? cs).map fun (chosen, rest) => ⟨cs.length - rest.length, chosen⟩
  else none

/-- What is left after blanks is no longer than the text. -/
theorem length_dropBlanks_le (s : Text) : (s.dropWhile isBlank).length ≤ s.length :=
  (List.dropWhile_sublist _).length_le

/-- A number and what follows it are no longer than the text. -/
theorem length_takeNumber {s number rest : Text} (h : takeNumber? s = some (number, rest)) :
    number.length + rest.length ≤ s.length := by
  simp only [takeNumber?, Option.map_eq_some_iff, Prod.mk.injEq] at h
  obtain ⟨n, -, rfl, rfl⟩ := h
  have := length_dropBlanks_le s
  simp only [List.length_take, List.length_drop]
  omega

/-- What follows a symbol is shorter than the text. -/
theorem length_dropSymbol {symbol : Char} {s rest : Text} (h : dropSymbol? symbol s = some rest) :
    rest.length < s.length := by
  have := length_dropBlanks_le s
  simp only [dropSymbol?] at h
  split at h
  · simp at h
  · next c cs shape =>
    have shape : (s.dropWhile isBlank).length = cs.length + 1 := by rw [shape]; rfl
    split at h
    · obtain rfl : cs = rest := by simpa using h
      omega
    · simp at h

/-- The alternative and what follows the choice are shorter than the choice and that. -/
theorem length_choose {s chosen rest : Text} (h : choose? s = some (chosen, rest)) :
    chosen.length + rest.length ≤ s.length := by
  simp only [choose?, Option.bind_eq_bind, Option.bind_eq_some_iff, Option.some.injEq,
    Prod.mk.injEq, Prod.exists] at h
  obtain ⟨condition, s₁, h₁, s₂, h₂, whenPositive, s₃, h₃, s₄, h₄, otherwise, s₅, h₅, s₆, h₆,
    rfl, rfl⟩ := h
  have := length_takeNumber h₁
  have := length_dropSymbol h₂
  have := length_takeNumber h₃
  have := length_dropSymbol h₄
  have := length_takeNumber h₅
  have := length_dropSymbol h₆
  split <;> omega

/-- Making a choice shortens the text. -/
theorem shortens_choices : choices.Shortens := by
  intro before c cs f found
  simp only [choices] at found
  split at found
  · simp only [Option.map_eq_some_iff, Prod.exists] at found
    obtain ⟨chosen, rest, h, rfl⟩ := found
    have := length_choose h
    simp only
    omega
  · simp at found

end NumericChoice

/-- The text with every choice between numbers made, until there are none. -/
def simplifyChoices (s : Text) : Text :=
  let next := NumericChoice.choices.replaceAll s
  if next = s then s else simplifyChoices next
termination_by s.length
decreasing_by exact Finder.length_replaceAll_lt NumericChoice.shortens_choices ‹_›

/-- No choice between numbers is left. -/
theorem replaceAll_simplifyChoices (s : Text) :
    NumericChoice.choices.replaceAll (simplifyChoices s) = simplifyChoices s := by
  fun_induction simplifyChoices s with
  | case1 s next stable => exact stable
  | case2 s next changed ih => exact ih

end Haulage
