/-
# How formulas are written

A `Form` is a formula as it is written: the syntax tree with its parentheses and with the separators
between arguments, which `Expr` leaves out.  A form knows its `lexemes`, one after the other, and
the expression `expr` that it stands for.

The grammar is in the **ranks**.  A form of a higher rank binds more tightly, and `WellFormed` says
how tightly each part of a form must bind to stand there without parentheses.
-/
import Haulage.Proofs.Formula.Lexing
import Haulage.Formula.Parser

namespace Haulage

/-! ## 1. Forms -/

/-- What stands between two arguments. -/
inductive Separator
  | comma | semicolon
deriving DecidableEq

/-- The symbol that separates arguments. -/
def Separator.symbol : Separator → Symbol
  | comma => .comma
  | semicolon => .semicolon

mutual

/-- A formula as it is written. -/
inductive Form
  | number (x : Float)
  | text (s : Text)
  | name (s : Text)
  | paren (inside : Form)
  | signed (sign : Sign) (operand : Form)
  | binary (operator : Operator) (left right : Form)
  | choice (condition whenTrue whenFalse : Form)
  | emptyCall (function : Text)
  | call (function : Text) (arguments : Arguments)

/-- One or more arguments with separators between them. -/
inductive Arguments
  | last (argument : Form)
  | more (argument : Form) (separator : Separator) (rest : Arguments)

end

/-- The rank of a level. -/
def Level.rank : Level → Nat
  | .comparison => 1
  | .additive => 2
  | .term => 3

mutual

/-- The lexemes of a form. -/
def Form.lexemes : Form → List Lexeme
  | .number x => [.number x]
  | .text s => [.text s]
  | .name s => [.name s]
  | .paren f => .symbol .openParen :: (f.lexemes ++ [.symbol .closeParen])
  | .signed s f => .symbol (.operator s.operator) :: f.lexemes
  | .binary o l r => l.lexemes ++ .symbol (.operator o) :: r.lexemes
  | .choice c a b => c.lexemes ++ .symbol .question :: (a.lexemes ++ .symbol .colon :: b.lexemes)
  | .emptyCall n => [.name n, .symbol .openParen, .symbol .closeParen]
  | .call n as => .name n :: .symbol .openParen :: (as.lexemes ++ [.symbol .closeParen])

/-- The lexemes of arguments. -/
def Arguments.lexemes : Arguments → List Lexeme
  | .last f => f.lexemes
  | .more f s as => f.lexemes ++ .symbol s.symbol :: as.lexemes

end

mutual

/-- The expression that a form stands for. -/
def Form.expr : Form → Expr
  | .number x => .number x
  | .text s => .text s
  | .name s => .name s
  | .paren f => f.expr
  | .signed s f => .signed s f.expr
  | .binary o l r => .binary o l.expr r.expr
  | .choice c a b => .conditional c.expr a.expr b.expr
  | .emptyCall n => .call n []
  | .call n as => .call n as.exprs

/-- The expressions that arguments stand for. -/
def Arguments.exprs : Arguments → List Expr
  | .last f => [f.expr]
  | .more f _ as => f.expr :: as.exprs

end

/-- How tightly a form binds. -/
def Form.rank : Form → Nat
  | .choice .. => 0
  | .binary o _ _ => (o.level?.map Level.rank).getD 5
  | .signed .. => 4
  | _ => 6

mutual

/-- Does every part of a form bind tightly enough to stand where it does? -/
def Form.WellFormed : Form → Prop
  | .number _ | .text _ | .name _ | .emptyCall _ => True
  | .paren f => f.WellFormed
  | .signed _ f => f.WellFormed ∧ 4 ≤ f.rank
  | .binary o l r =>
    l.WellFormed ∧ r.WellFormed ∧
      match o.level? with
      | some level => level.rank ≤ l.rank ∧ level.rank < r.rank
      | none => 6 ≤ l.rank ∧ 4 ≤ r.rank
  | .choice c a b => c.WellFormed ∧ a.WellFormed ∧ b.WellFormed ∧ 1 ≤ c.rank
  | .call _ as => as.WellFormed

/-- Are all arguments well formed? -/
def Arguments.WellFormed : Arguments → Prop
  | .last f => f.WellFormed
  | .more f _ as => f.WellFormed ∧ as.WellFormed

end

theorem Form.rank_binary_of_level {o : Operator} {level : Level} (h : o.level? = some level)
    (l r : Form) : (Form.binary o l r).rank = level.rank := by
  simp [Form.rank, h]

theorem Operator.level?_eq_none_iff {o : Operator} : o.level? = none ↔ o = .power := by
  cases o <;> simp [Operator.level?]

/-! ## 2. Phrases -/

/-- May an operand start with the lexeme? -/
def Lexeme.Opens : Lexeme → Prop
  | .symbol s => s = .openParen ∨ ∃ sign : Sign, s = .operator sign.operator
  | _ => True

/-- May an operand end with the lexeme? -/
def Lexeme.Closes : Lexeme → Prop
  | .symbol s => s = .closeParen
  | _ => True

/-- Lexemes that may be written without blanks between them, with an operand at either end. -/
structure Phrase (ls : List Lexeme) : Prop where
  opens : ∃ l, ls.head? = some l ∧ l.Opens
  closes : ∃ l, ls.getLast? = some l ∧ l.Closes
  apart : ls.IsChain Lexer.Apart

namespace Lexeme

open Lexer (Apart)

theorem Opens.apart {l : Lexeme} (h : l.Opens) (s : Symbol) : Apart (.symbol s) l := by
  have other : l ≠ .symbol (.operator .equal) := by
    rintro rfl
    rcases h with h | ⟨sign, h⟩
    · cases h
    · cases sign <;> cases h
  cases s <;> first | exact other | trivial

theorem Closes.apart {l : Lexeme} (h : l.Closes) (s : Symbol) : Apart l (.symbol s) := by
  cases l with
  | symbol s' =>
    obtain rfl : s' = .closeParen := h
    trivial
  | _ => trivial

end Lexeme

namespace Phrase

open Lexer (Apart)

theorem single {l : Lexeme} (opens : l.Opens) (closes : l.Closes) : Phrase [l] :=
  ⟨⟨l, rfl, opens⟩, ⟨l, rfl, closes⟩, .singleton l⟩

theorem ne_nil {ls : List Lexeme} (h : Phrase ls) : ls ≠ [] := by
  rintro rfl
  obtain ⟨l, none, -⟩ := h.opens
  cases none

theorem apart_head {ls : List Lexeme} (h : Phrase ls) (s : Symbol) :
    ∀ l ∈ ls.head?, Apart (.symbol s) l := by
  obtain ⟨l, head, opens⟩ := h.opens
  rintro l' hl'
  obtain rfl : l = l' := by simpa [head] using hl'
  exact opens.apart s

theorem apart_last {ls : List Lexeme} (h : Phrase ls) (s : Symbol) :
    ∀ l ∈ ls.getLast?, Apart l (.symbol s) := by
  obtain ⟨l, last, closes⟩ := h.closes
  rintro l' hl'
  obtain rfl : l = l' := by simpa [last] using hl'
  exact closes.apart s

/-- Two phrases with a symbol between them. -/
theorem join {x y : List Lexeme} (hx : Phrase x) (hy : Phrase y) (s : Symbol) :
    Phrase (x ++ .symbol s :: y) := by
  obtain ⟨l, head, opens⟩ := hx.opens
  obtain ⟨l', last, closes⟩ := hy.closes
  refine ⟨⟨l, by simp [List.head?_append, head], opens⟩,
    ⟨l', by simp [List.getLast?_append, List.getLast?_cons, last], closes⟩, ?_⟩
  refine List.isChain_append.mpr ⟨hx.apart, hy.apart.cons (hy.apart_head s), fun k hk m hm => ?_⟩
  obtain rfl : .symbol s = m := by simpa using hm
  exact hx.apart_last s k hk

/-- A phrase behind a symbol that an operand may start with. -/
theorem cons {x : List Lexeme} (hx : Phrase x) {s : Symbol} (opens : (Lexeme.symbol s).Opens) :
    Phrase (.symbol s :: x) := by
  obtain ⟨l, last, closes⟩ := hx.closes
  exact ⟨⟨_, rfl, opens⟩, ⟨l, by simp [List.getLast?_cons, last], closes⟩,
    hx.apart.cons (hx.apart_head s)⟩

/-- A phrase between parentheses. -/
theorem paren {x : List Lexeme} (hx : Phrase x) :
    Phrase (.symbol .openParen :: (x ++ [.symbol .closeParen])) := by
  obtain ⟨l, head, opens⟩ := hx.opens
  refine ⟨⟨_, rfl, .inl rfl⟩, ⟨.symbol .closeParen, by simp [List.getLast?_cons], rfl⟩, ?_⟩
  refine List.IsChain.cons ?_ fun k hk => ?_
  · refine List.isChain_append.mpr ⟨hx.apart, .singleton _, fun k hk m hm => ?_⟩
    obtain rfl : .symbol .closeParen = m := by simpa using hm
    exact hx.apart_last _ k hk
  · exact hx.apart_head _ k (by simpa [List.head?_append, head] using hk)

/-- A name in front of a phrase that starts with a parenthesis. -/
theorem name {x : List Lexeme} (hx : Phrase (.symbol .openParen :: x)) (n : Text) :
    Phrase (.name n :: .symbol .openParen :: x) := by
  obtain ⟨l, last, closes⟩ := hx.closes
  refine ⟨⟨_, rfl, trivial⟩, ⟨l, by simpa [List.getLast?_cons] using last, closes⟩, ?_⟩
  exact hx.apart.cons fun k hk => by
    obtain rfl : .symbol .openParen = k := by simpa using hk
    trivial

end Phrase

mutual

/-- The lexemes of a form are a phrase. -/
theorem Form.phrase : (f : Form) → Phrase f.lexemes
  | .number _ => .single trivial trivial
  | .text _ => .single trivial trivial
  | .name _ => .single trivial trivial
  | .paren f => f.phrase.paren
  | .signed sign f => f.phrase.cons (.inr ⟨sign, rfl⟩)
  | .binary o l r => l.phrase.join r.phrase (.operator o)
  | .choice c a b => c.phrase.join (a.phrase.join b.phrase .colon) .question
  | .emptyCall n => by
    refine ⟨⟨_, rfl, trivial⟩, ⟨.symbol .closeParen, rfl, rfl⟩, ?_⟩
    simp [Form.lexemes, Lexer.Apart]
  | .call n as => as.phrase.paren.name n

/-- The lexemes of arguments are a phrase. -/
theorem Arguments.phrase : (as : Arguments) → Phrase as.lexemes
  | .last f => f.phrase
  | .more f s as => f.phrase.join as.phrase s.symbol

end

end Haulage
