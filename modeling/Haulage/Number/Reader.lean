/-
# Reading numbers

`readFloat?` reads the text of a float and `readInteger?` that of an integer. Both allow blanks at
the ends, a sign, digits of any script, and single underscores between digits; a float may also have
a point, an exponent, or be one of the words for infinity and for no number at all. A float is the
one nearest to the decimal that is written.
-/
import Haulage.Number.Shortest
import Haulage.Text.Numeral
import Haulage.Text.Blank

namespace Haulage

/-- The natural that a row of digit values stands for, in base ten. -/
def digitsValue (digits : List Nat) : Nat := digits.foldl (fun n d => 10 * n + d) 0

/-- May the character surround a number? The four ASCII information separators may not, though they
are blank. -/
def surroundsNumber (c : Char) : Bool :=
  isBlank c && !(0x1c ≤ c.toNat && c.toNat ≤ 0x1f)

/-- The text without the blanks around a number. -/
def trimNumber (s : Text) : Text :=
  ((s.dropWhile surroundsNumber).reverse.dropWhile surroundsNumber).reverse

/-- The sign in front of a number and what follows it: is it a minus? -/
def splitSign : Text → Bool × Text
  | '-' :: s => (true, s)
  | '+' :: s => (false, s)
  | s => (false, s)

/-- The digit values at the start of a text, and what follows them. An underscore between two digits
is passed over. -/
def spanDigits : Text → List Nat × Text
  | [] => ([], [])
  | c :: s =>
    match decimalDigit? c with
    | none => ([], c :: s)
    | some d =>
      match s with
      | '_' :: c' :: s' =>
        if isDecimalDigit c' then
          let (ds, rest) := spanDigits (c' :: s')
          (d :: ds, rest)
        else ([d], '_' :: c' :: s')
      | s =>
        let (ds, rest) := spanDigits s
        (d :: ds, rest)

/-- The exponent that ends a number: nothing, or a mark, a sign and digits. -/
def readExponent? : Text → Option Int
  | [] => some 0
  | c :: s =>
    if c == 'e' || c == 'E' then
      match splitSign s with
      | (negative, s) =>
        match spanDigits s with
        | ([], _) => none
        | (ds, []) => some (if negative then -(digitsValue ds : Int) else digitsValue ds)
        | _ => none
    else none

/-- An unsigned decimal: digits, perhaps with a point among them, and perhaps an exponent. -/
def readDecimal? (s : Text) : Option Scientific :=
  match spanDigits s with
  | (whole, '.' :: s) =>
    match spanDigits s with
    | (part, s) =>
      if whole.isEmpty && part.isEmpty then none
      else (readExponent? s).map fun e => ⟨digitsValue (whole ++ part), e - part.length⟩
  | ([], _) => none
  | (whole, s) => (readExponent? s).map fun e => ⟨digitsValue whole, e⟩

/-- Is the text the word, up to the case of ASCII letters? -/
def isWord (word : String) (s : Text) : Bool := s.map Char.toLower == word.toList

/-- The unsigned float that a text without blanks stands for. -/
def readUnsigned? (s : Text) : Option Float :=
  if isWord "inf" s || isWord "infinity" s then some (1.0 / 0.0)
  else if isWord "nan" s then some (0.0 / 0.0)
  else (readDecimal? s).map (·.toFloat)

/-- The float that a text stands for. -/
def readFloat? (s : Text) : Option Float :=
  match splitSign (trimNumber s) with
  | (negative, s) => (readUnsigned? s).map fun x => if negative then -x else x

/-- The digit values of an integer and whether it is negative. -/
def integerDigits? (s : Text) : Option (Bool × List Nat) :=
  match splitSign (trimNumber s) with
  | (negative, s) =>
    match spanDigits s with
    | ([], _) => none
    | (ds, []) => some (negative, ds)
    | _ => none

/-- The integer that a text stands for. -/
def readInteger? (s : Text) : Option Int :=
  (integerDigits? s).map fun (negative, ds) =>
    if negative then -(digitsValue ds : Int) else digitsValue ds

end Haulage
