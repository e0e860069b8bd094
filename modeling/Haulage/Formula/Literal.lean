/-
# Literals

How values are written in a formula: a number as its digits, a negative one in parentheses, and a
text between double quotes with a backslash in front of every quote and backslash in it. In the
other direction `textLiterals` finds the text literals of a formula. Names in them stand for
nothing, so what changes a formula works on its `segments` outside them.
-/
import Haulage.Text.Search
import Haulage.Value.Display
import Haulage.Number.Basic

namespace Haulage

/-- The text with a backslash in front of every backslash and double quote. -/
def Text.escaped (s : Text) : Text :=
  s.flatMap fun c => if c == '\\' || c == '"' then ['\\', c] else [c]

/-- The text as a literal. -/
def Text.literal (s : Text) : Text := '"' :: (s.escaped ++ ['"'])

/-- A number as a literal. -/
def Number.literal (n : Number) : Text :=
  if n.less (.int 0) then '(' :: (n.text ++ [')']) else n.text

namespace Value

/-- The digits of a number in a formula; only numbers have them. -/
def digits : Value → Except ValueFault Text
  | bool b => .ok (if b then ['1'] else ['0'])
  | int n => integerDigitsText n
  | float x => .ok (numberText x)
  | v => .error (.noMember v.kind "is_integer")

/-- A value as a literal: a number or a text. -/
def literal : Value → Except ValueFault Text
  | text s => .ok s.literal
  | int n => do
    let digits ← integerDigitsText n
    .ok (if n < 0 then '(' :: (digits ++ [')']) else digits)
  | float x => .ok (Number.float x).literal
  | v => v.digits

end Value

/-- The number of characters of a text literal after its opening quote; none where it is not closed.
A backslash takes the next character with it, which must not end the line. -/
def literalLength? : Text → Option Nat
  | [] => none
  | '"' :: _ => some 1
  | '\\' :: c :: cs => if c == '\n' then none else (literalLength? cs).map (· + 2)
  | ['\\'] => none
  | _ :: cs => (literalLength? cs).map (· + 1)

/-- Finds text literals. -/
def textLiterals : Finder Text := fun _ c cs =>
  if c == '"' then (literalLength? cs).map fun n => ⟨n, c :: cs.take n⟩ else none

/-- A stretch of a formula: a text literal, or what stands between two of them. -/
inductive Segment
  | plain (s : Text)
  | quoted (s : Text)
deriving DecidableEq

/-- Pieces put together to stretches. -/
def joinPieces : List (Piece Text) → List Segment
  | [] => []
  | .found s _ :: ps => .quoted s :: joinPieces ps
  | .kept c :: ps =>
    match joinPieces ps with
    | .plain s :: rest => .plain (c :: s) :: rest
    | rest => .plain [c] :: rest

/-- The stretches of a formula. -/
def segments (s : Text) : List Segment := joinPieces (textLiterals.pieces s)

/-- The formula with every stretch outside text literals changed by itself. -/
def outsideLiterals (change : Text → Text) (s : Text) : Text :=
  (segments s).flatMap fun
    | .plain s => change s
    | .quoted s => s

/-- The formula with a blank in place of every text literal. -/
def blankLiterals (s : Text) : Text :=
  Finder.replaceAll (fun before c cs => (textLiterals before c cs).map fun f => ⟨f.more, [' ']⟩) s

end Haulage
