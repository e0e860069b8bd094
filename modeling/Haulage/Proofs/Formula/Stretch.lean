/-
# The stretches of a formula

`outsideLiterals` changes every stretch between two text literals by itself.  A formula is taken
apart at its first literal: what stands in front of it is changed as a whole, the literal stays, and
the rest goes on as a formula of its own (`outsideLiterals_append_literal`).

The lexer has its own way to tell where a text literal ends.  Without backslashes both agree, and
what is cut into lexemes is also cut into stretches (`stretched_of_lexes`).
-/
import Haulage.Proofs.Formula.Lexing
import Haulage.Proofs.Text.Search
import Haulage.Formula.Literal

namespace Haulage

open Lexer (Lexes Spells)

/-! ## 1. Putting pieces together -/

/-- Characters that stay are put together up to the next literal. -/
theorem joinPieces_kept_append {x : Text} (nonempty : x ≠ []) {ps : List (Piece Text)}
    (start : ∀ c, ps.head? ≠ some (.kept c)) :
    joinPieces (x.map .kept ++ ps) = .plain x :: joinPieces ps := by
  induction x with
  | nil => exact absurd rfl nonempty
  | cons c x ih =>
    rw [List.map_cons, List.cons_append, joinPieces]
    cases x with
    | nil =>
      rw [List.map_nil, List.nil_append]
      match ps with
      | [] => rfl
      | .kept d :: ps => exact absurd rfl (start d)
      | .found s n :: ps => rfl
    | cons d x => rw [ih (List.cons_ne_nil d x)]

/-! ## 2. Literals -/

/-- A literal without backslashes ends at the next quote. -/
theorem literalLength?_of_plain {body : Text} (quote : '"' ∉ body) (escape : '\\' ∉ body)
    (rest : Text) : literalLength? (body ++ '"' :: rest) = some (body.length + 1) := by
  induction body with
  | nil => rfl
  | cons c body ih =>
    simp only [List.mem_cons, not_or] at quote escape
    rw [List.cons_append, literalLength?.eq_5 _ _ (Ne.symm quote.1)
      (fun _ _ h => absurd h.symm escape.1) (fun h => absurd h.symm escape.1), ih quote.2 escape.2]
    rfl

/-- A literal ends in the text. -/
theorem le_of_literalLength? {cs : Text} {n : Nat} (h : literalLength? cs = some n) :
    n ≤ cs.length := by
  fun_induction literalLength? cs generalizing n with
  | case1 => cases h
  | case2 => cases h; simp
  | case3 => cases h
  | case4 c cs _ ih =>
    obtain ⟨m, found, rfl⟩ := Option.map_eq_some_iff.mp h
    simpa using ih found
  | case5 => cases h
  | case6 c cs _ _ _ ih =>
    obtain ⟨m, found, rfl⟩ := Option.map_eq_some_iff.mp h
    simpa using ih found

theorem textLiterals_eq_none {c : Char} (h : c ≠ '"') (before : Option Char) (cs : Text) :
    textLiterals before c cs = none := by
  simp [textLiterals, h]

theorem quiet_textLiterals {x : Text} (plain : '"' ∉ x) (before : Option Char) (rest : Text) :
    Quiet textLiterals before x rest := by
  induction x generalizing before with
  | nil => trivial
  | cons c x ih =>
    simp only [List.mem_cons, not_or] at plain
    exact ⟨textLiterals_eq_none (Ne.symm plain.1) _ _, ih plain.2 _⟩

/-- Without text literals nothing is blanked out. -/
theorem blankLiterals_of_plain {s : Text} (plain : '"' ∉ s) : blankLiterals s = s := by
  have quiet : Quiet (fun before c cs =>
      (textLiterals before c cs).map fun f => (⟨f.more, [' ']⟩ : Find Text)) none s [] :=
    (quiet_textLiterals plain none []).mono fun _ _ _ none => by rw [none, Option.map_none]
  rw [blankLiterals, Finder.replaceAll, Finder.pieces_of_quiet quiet, flatMap_text_map_kept]

section Change

variable {change : Text → Text} (empty : change [] = [])

include empty

/-- The stretches of pieces that stay, and of what comes after them. -/
theorem flatMap_joinPieces_kept_append (x : Text) {ps : List (Piece Text)}
    (start : ∀ c, ps.head? ≠ some (.kept c)) (act : Segment → Text)
    (plain : ∀ s, act (.plain s) = change s) :
    (joinPieces (x.map .kept ++ ps)).flatMap act = change x ++ (joinPieces ps).flatMap act := by
  by_cases nonempty : x = []
  · subst nonempty
    rw [empty]
    rfl
  · rw [joinPieces_kept_append nonempty start, List.flatMap_cons, plain]

/-- Without text literals a formula is changed as a whole. -/
theorem outsideLiterals_of_plain {s : Text} (plain : '"' ∉ s) :
    outsideLiterals change s = change s := by
  rw [outsideLiterals, segments, Finder.pieces_of_quiet (quiet_textLiterals plain none []),
    ← List.append_nil (s.map Piece.kept),
    flatMap_joinPieces_kept_append empty s (by simp) _ fun _ => rfl]
  simp [joinPieces]

/-- **At a literal a formula falls apart.** -/
theorem outsideLiterals_append_of_length {x cs : Text} {n : Nat} (plain : '"' ∉ x)
    (length : literalLength? cs = some n) :
    outsideLiterals change (x ++ '"' :: cs) =
      change x ++ ('"' :: cs.take n ++ outsideLiterals change (cs.drop n)) := by
  have blind (before before' : Option Char) (c : Char) (cs : Text) :
      textLiterals before c cs = textLiterals before' c cs := rfl
  have found (before : Option Char) : textLiterals before '"' (cs.take n ++ cs.drop n) =
      some ⟨(cs.take n).length, '"' :: cs.take n⟩ := by
    rw [List.take_append_drop, List.length_take_of_le (le_of_literalLength? length), textLiterals,
      length]
    rfl
  have pieces := Finder.piecesFrom_append_of_quiet
    (quiet_textLiterals plain none ('"' :: cs.take n ++ cs.drop n))
  rw [Finder.piecesFrom_of_found (found _), List.cons_append, List.take_append_drop] at pieces
  rw [outsideLiterals, segments, Finder.pieces, pieces,
    flatMap_joinPieces_kept_append empty x (by simp) _ fun _ => rfl, joinPieces, List.flatMap_cons,
    Finder.piecesFrom_congr_before blind _ none]
  rfl

theorem outsideLiterals_append_literal {x body : Text} (plain : '"' ∉ x) (quote : '"' ∉ body)
    (escape : '\\' ∉ body) (rest : Text) :
    outsideLiterals change (x ++ ('"' :: (body ++ ['"']) ++ rest)) =
      change x ++ ('"' :: (body ++ ['"']) ++ outsideLiterals change rest) := by
  have length := literalLength?_of_plain quote escape rest
  have size : body.length + 1 = (body ++ ['"']).length := by simp
  rw [List.append_cons, size] at length
  rw [List.cons_append, outsideLiterals_append_of_length empty plain length, List.take_left,
    List.drop_left]

end Change

/-! ## 3. Lexemes in stretches -/

/-- The text is cut into the lexemes, stretch by stretch. -/
inductive Stretched : Text → List Lexeme → Prop
  | plain {x : Text} {ls : List Lexeme} (lexes : Lexes x ls) (plain : '"' ∉ x) : Stretched x ls
  | literal {x body rest : Text} {front back : List Lexeme} (lexes : Lexes x front) (plain : '"' ∉ x)
      (quote : '"' ∉ body) (escape : '\\' ∉ body)
      (spells : Spells ('"' :: (body ++ ['"'])) (.text body) rest) (more : Stretched rest back) :
      Stretched (x ++ ('"' :: (body ++ ['"']) ++ rest)) (front ++ .text body :: back)

/-- Without backslashes the lexer reads a text up to the next quote. -/
theorem eq_of_readQuoted? {w s rest : Text} (h : Lexer.readQuoted? w = some (s, rest))
    (escape : '\\' ∉ w) : w = s ++ '"' :: rest ∧ '"' ∉ s := by
  fun_induction Lexer.readQuoted? w generalizing s rest with
  | case1 => cases h
  | case2 cs =>
    cases h
    exact ⟨rfl, List.not_mem_nil⟩
  | case3 => exact absurd List.mem_cons_self escape
  | case4 c cs other _ ih =>
    obtain ⟨⟨s', rest'⟩, read, whole⟩ := Option.map_eq_some_iff.mp h
    cases whole
    obtain ⟨rfl, quote⟩ := ih read (mt (List.mem_cons_of_mem c) escape)
    exact ⟨rfl, List.not_mem_cons_of_ne_of_not_mem (Ne.symm other) quote⟩

/-- Only text literals are written with quotes. -/
theorem quote_not_mem_of_spells {sp rest : Text} {l : Lexeme} (h : Spells sp l rest)
    (other : ∀ t, l ≠ .text t) : '"' ∉ sp := by
  intro quote
  cases h with
  | number starts span read =>
    exact absurd ((Spells.number starts span read).mem_number quote) (by decide)
  | name start _ inside =>
    rcases List.mem_cons.mp quote with rfl | quote
    · exact absurd start (by decide)
    · exact absurd (inside _ quote) (by decide)
  | text => exact other _ rfl
  | pair pair =>
    obtain ⟨first, rfl⟩ := Lexer.mem_symbolChars_of_ofPair? pair
    rcases List.mem_cons.mp quote with rfl | quote
    · exact absurd first (by decide)
    · exact absurd quote (by decide)
  | single single =>
    obtain rfl := List.mem_singleton.mp quote
    exact absurd (Lexer.mem_symbolChars_of_ofChar? single) (by decide)

/-- A lexeme that is no text goes in front of the first stretch. -/
theorem Stretched.token {sp rest : Text} {l : Lexeme} {ls : List Lexeme} (h : Stretched rest ls)
    (spells : Spells sp l rest) (other : ∀ t, l ≠ .text t) : Stretched (sp ++ rest) (l :: ls) := by
  have plain' := quote_not_mem_of_spells spells other
  cases h with
  | plain lexes plain =>
    exact .plain (.token spells lexes) (by simp [plain, plain'])
  | literal lexes plain quote escape spells' more =>
    rw [← List.append_assoc]
    exact .literal (.token spells.truncate lexes) (by simp [plain, plain']) quote escape spells' more

/-- **What is cut into lexemes is cut into stretches.** -/
theorem stretched_of_lexes {s : Text} {ls : List Lexeme} (h : Lexes s ls) (escape : '\\' ∉ s) :
    Stretched s ls := by
  induction h with
  | nil => exact .plain .nil List.not_mem_nil
  | @blank c cs ls blank _ ih =>
    have other : '"' ≠ c := by
      rintro rfl
      exact absurd blank (by decide)
    cases ih (mt (List.mem_cons_of_mem c) escape) with
    | plain lexes plain => exact .plain (.blank blank lexes) (by simp [plain, other])
    | literal lexes plain quote escape' spells more =>
      rw [← List.cons_append]
      exact .literal (.blank blank lexes) (by simp [plain, other]) quote escape' spells more
  | @token sp rest l ls spells _ ih =>
    simp only [List.mem_append, not_or] at escape
    have more := ih escape.2
    by_cases text : ∃ t, l = .text t
    · obtain ⟨t, rfl⟩ := text
      cases spells with
      | @text cs _ _ read =>
        rw [List.mem_cons, not_or] at escape
        obtain ⟨whole, quote⟩ := eq_of_readQuoted? read (by simp [escape])
        obtain rfl : cs = t ++ ['"'] := List.append_cancel_right (by simpa using whole)
        have inside : '\\' ∉ t := fun mem => escape.1.2 (List.mem_append_left _ mem)
        exact .literal .nil List.not_mem_nil quote inside (.text read) more
    · exact more.token spells (not_exists.mp text)

end Haulage
