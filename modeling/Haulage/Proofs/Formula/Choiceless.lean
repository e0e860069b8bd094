/-
# Making choices where there are none

The search for choices looks into text literals too, so it may change an expression that makes no
choice.  What it changes there is only what a text says: the question mark of a choice is a lexeme,
and where none of the lexemes is a question mark, all of the choice stands inside of one text
literal (`Form.WrittenAs.choose`).  So an expression without choices is read as the same one with its
choices made, but for its texts (`Form.WrittenAs.simplifyChoices`, `Form.WrittenAs.exists_parsed`).
-/
import Haulage.Proofs.Formula.Choice
import Haulage.Proofs.Substitution.Arity

namespace Haulage

open Lexer (Lexes Spells)
open NumericChoice (IsChoice IsLiteral choose? choices made)

/-! ## 1. Lexemes that are the same but for texts -/

namespace ReplacesAll

variable {ls ms front back : List Lexeme}

theorem single_cons {l m : Lexeme} (first : Replaces [] l [m]) (more : ReplacesAll [] ls ms) :
    ReplacesAll [] (l :: ls) (m :: ms) := .cons first more

theorem refl : (ls : List Lexeme) → ReplacesAll [] ls ls
  | [] => .nil
  | l :: ls => .single_cons (.same l) (refl ls)

/-- A text may be replaced once more. -/
theorem exchange_text {s s' : Text} (h : ReplacesAll [] ls (front ++ .text s :: back)) :
    ReplacesAll [] ls (front ++ .text s' :: back) := by
  generalize whole : front ++ .text s :: back = ms at h
  induction h generalizing front with
  | nil => simp at whole
  | cons first more ih =>
    cases front with
    | nil =>
      cases first with
      | same =>
        obtain ⟨rfl, rfl⟩ := List.cons.inj whole
        exact .single_cons (.text s s') more
      | text t =>
        obtain ⟨-, rfl⟩ := List.cons.inj whole
        exact .single_cons (.text t s') more
      | name found => cases found
    | cons m front =>
      cases first with
      | same =>
        obtain ⟨rfl, rest⟩ := List.cons.inj whole
        exact .single_cons (.same _) (ih rest)
      | text t t' =>
        obtain ⟨rfl, rest⟩ := List.cons.inj whole
        exact .single_cons (.text t t') (ih rest)
      | name found => cases found

/-- No symbol comes in. -/
theorem mem_symbol {s : Symbol} (h : ReplacesAll [] ls ms) (mem : .symbol s ∈ ms) :
    .symbol s ∈ ls := by
  induction h with
  | nil => exact mem
  | cons first _ ih =>
    rcases List.mem_append.mp mem with here | later
    · cases first with
      | same => exact List.mem_singleton.mp here ▸ .head _
      | text => simp at here
      | name found => cases found
    · exact .tail _ (ih later)

end ReplacesAll

/-! ## 2. Choices made in the text of a form -/

/-- A parenthesis that is not the first character of a spelling stands in a text literal. -/
theorem Lexer.Spells.exists_text_of_openParen {p q rest : Text} {l : Lexeme}
    (h : Spells (p ++ '(' :: q) l rest) (begun : p ≠ []) : ∃ s, l = .text s := by
  have mem : '(' ∈ p ++ '(' :: q := List.mem_append_right p (.head q)
  cases l with
  | text s => exact ⟨s, rfl⟩
  | number x => exact absurd (h.mem_number mem) (by decide)
  | name n =>
    obtain ⟨-, -, word, -⟩ := h.name_cases begun
    exact absurd (word '(' (.head q)) (by decide)
  | symbol s => exact absurd (h.symbol_cases begun (List.cons_ne_nil _ _)) (by simp)

namespace Form

/-- Is the text cut into the lexemes of the form, but for what its texts say? -/
def WrittenAs (f : Form) (s : Text) : Prop := ∃ ls, ReplacesAll [] f.lexemes ls ∧ Lexes s ls

namespace WrittenAs

variable {f : Form} (wf : f.WellFormed)

theorem of_lexes {s : Text} (lexes : Lexes s f.lexemes) : f.WrittenAs s := ⟨_, .refl _, lexes⟩

include wf

/-- A text that is cut so stands for the expression, but for its texts. -/
theorem exists_parsed {s : Text} (h : f.WrittenAs s) :
    ∃ e, parsed s = .ok e ∧ f.expr.Replaces [] e := by
  obtain ⟨ls, replaced, lexes⟩ := h
  obtain ⟨f', wf', -, rfl, same⟩ := f.exists_replaces wf (fun _ _ => rfl) ls replaced
  exact ⟨f'.expr, parsed_eq_ok_iff.mpr ⟨f', wf', rfl, lexes⟩, same⟩

variable (choiceless : .symbol .question ∉ f.lexemes)

include choiceless

/-- **One choice made.**  It stands inside of a text literal. -/
theorem choose {before inner chosen after : Text} (isChoice : IsChoice ('(' :: inner))
    (literal : IsLiteral chosen) (h : f.WrittenAs (before ++ ('(' :: inner ++ after))) :
    f.WrittenAs (before ++ (chosen ++ after)) := by
  obtain ⟨ls, replaced, lexes⟩ := h
  have apart {ms : List Lexeme} (h : ReplacesAll [] f.lexemes ms) : ms.IsChain Lexer.Apart := by
    obtain ⟨f', -, -, rfl, -⟩ := f.exists_replaces wf (fun _ _ => rfl) ms h
    exact f'.phrase.apart
  rcases lexes.cut with ⟨front, back, rfl, -, behind⟩ |
    ⟨x, p, q, rest, front, l, back, rfl, whole, begun, more, rfl, lexesx, spells, behind⟩
  · -- between two lexemes the lexemes of the choice would follow
    obtain ⟨c, a, b, -, -, -, lexesChoice⟩ := isChoice.lexes
    have last : (paren (.choice c a b)).lexemes.getLast? = some (.symbol .closeParen) := by
      rw [lexemes]
      simp [List.getLast?_cons]
    obtain ⟨back, rfl, -⟩ := lexesChoice.of_append (paren (.choice c a b)).phrase.apart
      (fun l hl => Option.some.inj (last.symm.trans hl) ▸ .inl rfl) behind
    exact absurd (replaced.mem_symbol (s := .question) (by simp [lexemes])) choiceless
  · obtain ⟨d, q, rfl⟩ := List.exists_cons_of_ne_nil more
    obtain ⟨rfl, -⟩ := List.cons.inj whole
    obtain ⟨s, rfl⟩ := spells.exists_text_of_openParen begun
    obtain ⟨c, cs, rfl⟩ := List.exists_cons_of_ne_nil begun
    obtain ⟨rfl, read⟩ := spells.text_cases
    obtain ⟨q', s', rfl, spells'⟩ := Spells.exists_exchanged read more whole isChoice.unquoted
      literal.unquoted isChoice.ne_nil literal.ne_nil
    have exchanged : ReplacesAll [] f.lexemes (front ++ .text s' :: back) := replaced.exchange_text
    refine ⟨front ++ .text s' :: back, exchanged, ?_⟩
    have parts : List.Forall₂ Lexes [x, '"' :: (cs ++ (chosen ++ q')), rest]
        [front, [.text s'], back] := .cons lexesx (.cons spells'.lexes (.cons behind .nil))
    have chain := apart exchanged
    simpa using Lexes.flatten parts (by simpa using chain)

/-- A round of choices, made from the left to the right. -/
theorem choose_rest (front rest : Text) (h : f.WrittenAs (front ++ rest)) :
    f.WrittenAs (front ++ made rest) := by
  match rest with
  | [] => exact h
  | c :: cs =>
    cases found : choices none c cs with
    | none =>
      have split (s : Text) : front ++ c :: s = front ++ [c] ++ s := by simp
      rw [NumericChoice.made_cons_of_none found, split]
      rw [split] at h
      exact choose_rest (front ++ [c]) cs h
    | some _ =>
      obtain ⟨rfl, chosen, after, chooses⟩ := NumericChoice.exists_choose_of_choices found
      obtain ⟨inner, rfl, isChoice, literal⟩ := NumericChoice.exists_of_choose? chooses
      rw [NumericChoice.made_of_choice chooses, ← List.append_assoc]
      have next := choose wf choiceless isChoice literal h
      rw [← List.append_assoc] at next
      exact choose_rest (front ++ chosen) after next
termination_by rest.length

/-- **Making choices leaves a form without choices**, but for what its texts say. -/
theorem simplifyChoices {s : Text} (h : f.WrittenAs s) :
    f.WrittenAs (Haulage.simplifyChoices s) := by
  fun_induction Haulage.simplifyChoices s with
  | case1 => exact h
  | case2 s next changed ih => exact ih (choose_rest wf choiceless [] s h)

end WrittenAs

end Form

end Haulage
