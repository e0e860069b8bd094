/-
# Reading tokens

`Lexer.scan` cuts a text into tokens. Blanks separate tokens and are dropped; a number is the
longest row of digits and points with an exponent if digits follow its mark; a name is the longest
row of letters, numerals and underscores that does not start with a numeral; a text runs from one
double quote to the next, a backslash taking the character after it as it is; a symbol of two
characters goes before one of a single character.

Every token takes the characters it is spelled with off the front of the text, so nothing is lost:
`readToken_append`.
-/
import Haulage.Formula.SyntaxFault
import Haulage.Number.Reader
import Haulage.Text.Word

namespace Haulage

namespace Lexer

/-- May the character stand in a number in front of its exponent? -/
def isNumberChar (c : Char) : Bool := isDigitLike c || c == '.'

/-- How many characters the exponent at the start of a text takes; none if no digit follows its mark
and sign. -/
def exponentLength : Text → Nat
  | c :: cs =>
    if c == 'e' || c == 'E' then
      match cs with
      | d :: ds =>
        if isDigitLike d then 1 + (cs.takeWhile isDigitLike).length
        else if d == '+' || d == '-' then
          if ds.head?.any isDigitLike then 2 + (ds.takeWhile isDigitLike).length else 0
        else 0
      | [] => 0
    else 0
  | [] => 0

/-- The number at the start of a text, and what follows it. -/
def spanNumber (s : Text) : Text × Text :=
  let front := s.takeWhile isNumberChar
  let rest := s.dropWhile isNumberChar
  let length := exponentLength rest
  (front ++ rest.take length, rest.drop length)

/-- Does a number start here? -/
def startsNumber (c : Char) (cs : Text) : Bool :=
  isDigitLike c || (c == '.' && cs.head?.any isDigitLike)

/-- What a text says up to its closing quote, and what follows the quote. -/
def readQuoted? : Text → Option (Text × Text)
  | [] => none
  | '"' :: cs => some ([], cs)
  | '\\' :: c :: cs => (readQuoted? cs).map fun (s, rest) => (c :: s, rest)
  | c :: cs => (readQuoted? cs).map fun (s, rest) => (c :: s, rest)

/-- A lexeme with the characters it is spelled with and what follows them. -/
structure Spelled where
  lexeme : Lexeme
  spelling : Text
  rest : Text

/-- The symbol at the start of a text. -/
def readSymbol? (c : Char) (cs : Text) : Option Spelled :=
  match cs with
  | d :: ds =>
    match Symbol.ofPair? c d with
    | some s => some ⟨.symbol s, [c, d], ds⟩
    | none => (Symbol.ofChar? c).map fun s => ⟨.symbol s, [c], cs⟩
  | [] => (Symbol.ofChar? c).map fun s => ⟨.symbol s, [c], cs⟩

/-- The token at the start of a text that starts with no blank. -/
def readToken (position : Nat) (c : Char) (cs : Text) : Except SyntaxFault Spelled :=
  if startsNumber c cs then
    let (literal, rest) := spanNumber (c :: cs)
    match readFloat? literal with
    | some x => .ok ⟨.number x, literal, rest⟩
    | none => .error (.malformedNumber literal position)
  else if isNameStart c then
    let name := c :: cs.takeWhile isNameChar
    .ok ⟨.name name, name, cs.dropWhile isNameChar⟩
  else if c == '"' then
    match readQuoted? cs with
    | some (s, rest) => .ok ⟨.text s, (c :: cs).take (cs.length + 1 - rest.length), rest⟩
    | none => .error (.unterminatedText position)
  else
    match readSymbol? c cs with
    | some spelled => .ok spelled
    | none => .error (.strayCharacter c position)

/-- The text between quotes is a part of what follows the first quote. -/
theorem readQuoted?_suffix {cs s rest : Text} (h : readQuoted? cs = some (s, rest)) :
    ∃ front, cs = front ++ rest ∧ front ≠ [] := by
  fun_induction readQuoted? cs generalizing s rest with
  | case1 => simp at h
  | case2 cs =>
    obtain ⟨rfl, rfl⟩ : [] = s ∧ cs = rest := by simpa using h
    exact ⟨['"'], by simp⟩
  | case3 c cs ih =>
    simp only [Option.map_eq_some_iff] at h
    obtain ⟨⟨s', rest'⟩, h', e⟩ := h
    obtain ⟨rfl, rfl⟩ : c :: s' = s ∧ rest' = rest := by simpa using e
    obtain ⟨front, rfl, -⟩ := ih h'
    exact ⟨'\\' :: c :: front, by simp⟩
  | case4 c cs _ _ ih =>
    simp only [Option.map_eq_some_iff] at h
    obtain ⟨⟨s', rest'⟩, h', e⟩ := h
    obtain ⟨rfl, rfl⟩ : c :: s' = s ∧ rest' = rest := by simpa using e
    obtain ⟨front, rfl, -⟩ := ih h'
    exact ⟨c :: front, by simp⟩

/-- A number and what follows it make up the text. -/
theorem spanNumber_append (s : Text) : (spanNumber s).1 ++ (spanNumber s).2 = s := by
  simp [spanNumber, List.append_assoc]

/-- What starts like a number has at least one character of it. -/
theorem spanNumber_ne_nil {c : Char} {cs : Text} (h : startsNumber c cs = true) :
    (spanNumber (c :: cs)).1 ≠ [] := by
  have hc : isNumberChar c = true := by
    simp only [startsNumber, Bool.or_eq_true, Bool.and_eq_true] at h
    simp only [isNumberChar, Bool.or_eq_true]
    exact h.imp id And.left
  simp [spanNumber, hc]

/-- A token takes the characters it is spelled with, at least one, off the front of the text. -/
theorem readToken_append {position : Nat} {c : Char} {cs : Text} {t : Spelled}
    (h : readToken position c cs = .ok t) :
    t.spelling ++ t.rest = c :: cs ∧ t.spelling ≠ [] := by
  simp only [readToken] at h
  split at h
  · next starts =>
    split at h
    · obtain rfl : _ = t := by simpa using h
      exact ⟨spanNumber_append _, spanNumber_ne_nil starts⟩
    · simp at h
  split at h
  · obtain rfl : _ = t := by simpa using h
    simp
  split at h
  · split at h
    · next s rest read =>
      obtain rfl : _ = t := by simpa using h
      obtain ⟨front, rfl, -⟩ := readQuoted?_suffix read
      have used : (front ++ rest).length + 1 - rest.length = front.length + 1 := by
        simp only [List.length_append]
        omega
      simp only [used]
      simp
    · simp at h
  · split at h
    · next spelled read =>
      obtain rfl : spelled = t := by simpa using h
      simp only [readSymbol?] at read
      split at read
      · split at read
        · obtain rfl : _ = spelled := by simpa using read
          simp
        · simp only [Option.map_eq_some_iff] at read
          obtain ⟨s, -, rfl⟩ := read
          simp
      · simp only [Option.map_eq_some_iff] at read
        obtain ⟨s, -, rfl⟩ := read
        simp
    · simp at h

/-- What follows a token is shorter than the text. -/
theorem length_rest_lt {position : Nat} {c : Char} {cs : Text} {t : Spelled}
    (h : readToken position c cs = .ok t) : t.rest.length < (c :: cs).length := by
  obtain ⟨whole, nonempty⟩ := readToken_append h
  have := congrArg List.length whole
  have : 0 < t.spelling.length := List.length_pos_iff.mpr nonempty
  simp only [List.length_append] at *
  omega

/-- The tokens of a text, and the place where it ends. -/
structure Scanned where
  tokens : List Token
  finish : Nat

/-- The tokens of a text whose first character stands at a place. -/
def scanFrom (position : Nat) (s : Text) : Except SyntaxFault Scanned :=
  match s with
  | [] => .ok ⟨[], position⟩
  | c :: cs =>
    if isBlank c then scanFrom (position + 1) cs
    else match _read : readToken position c cs with
      | .error f => .error f
      | .ok t =>
        match scanFrom (position + t.spelling.length) t.rest with
        | .error f => .error f
        | .ok scanned => .ok ⟨⟨t.lexeme, position⟩ :: scanned.tokens, scanned.finish⟩
termination_by s.length
decreasing_by
  · simp
  · exact length_rest_lt _read

/-- The tokens of a text. -/
def scan (s : Text) : Except SyntaxFault Scanned := scanFrom 0 s

end Lexer

end Haulage
