/-
# Making choices in a text that is no formula

Where a choice between numbers is made, one of its numbers takes its place.  Both are operands, so the
walk over the lexemes comes to the same place over either, and a text that is a formula with the
choice made is one with the choice put back (`exists_parsed_of_made`).  What is put back from the
left to the right, round by round, is the text as it was at first
(`exists_parsed_of_simplifyChoices`).

This takes that the number stands for its own lexemes, and that no operand ends in front of it:
the parentheses of a choice keep it apart from its neighbours, and the number that is left has none.
`Beside` says where that matters.  In `2(1?3:4)` the digits run together, in `2e+(1?3:4)` a number is
completed, in `5 (1?-3:4)` a minus sign becomes an operator, and in `max(1?2:3)(4)` the name of one
call becomes that of another.  All four are formulas with the choice made, and are none before.
-/
import Haulage.Proofs.Formula.Acceptance
import Haulage.Proofs.Formula.ChoiceText
import Haulage.Proofs.Formula.Parsing
import Haulage.Proofs.Text.Search

namespace Haulage

open Lexer (Spells Lexes Apart Ends)

namespace NumericChoice

/-! ## 1. The walk over a choice -/

section

variable {bs : List Bracket} {p : Place} {w : Walk}

/-- A number in the place of a choice leads to where an operand has ended. -/
theorem run_literal {f : Form} (h : LiteralForm f) (open' : p ≠ .joint)
    (run : Walk.run ⟨bs, p⟩ f.lexemes = some w) : w = ⟨bs, .joint⟩ := by
  cases h <;> cases p <;>
    simp_all [Form.lexemes, Walk.step, Walk.stepOperand, Walk.stepJoint, Sign.operator]

/-- A choice leads there too. -/
theorem run_choice (c a b : Form) (open' : p ≠ .joint) :
    Walk.run ⟨bs, p⟩ (Form.paren (.choice c a b)).lexemes = some ⟨bs, .joint⟩ := by
  have group : Walk.run ⟨bs, .operand⟩ (Form.paren (.choice c a b)).lexemes = some ⟨bs, .joint⟩ :=
    Walk.run_group (Form.run _ (.choice c a b))
  cases p with
  | operand => exact group
  | argument => exact ((Form.paren (.choice c a b)).phrase.run_argument bs).trans group
  | name => exact Walk.run_call (Form.phrase _) (Form.run _ (.choice c a b))
  | joint => exact absurd rfl open'

/-- A lexeme with which an operand ends that is no name. -/
theorem closes_of_step {l : Lexeme} (h : w.step l = some ⟨bs, .joint⟩) :
    l.Closes ∧ ∀ n, l ≠ .name n := by
  obtain ⟨bs', p⟩ := w
  cases l with
  | number | text => exact ⟨trivial, nofun⟩
  | name => cases p <;> cases h
  | symbol s =>
    refine ⟨?_, nofun⟩
    by_cases closes : s = .closeParen
    · exact closes
    have joint : Walk.stepJoint bs' (.symbol s) ≠ some ⟨bs, .joint⟩ := by
      cases s with
      | closeParen => exact absurd rfl closes
      | operator | question | openParen => simp [Walk.stepJoint]
      | colon | comma | semicolon =>
        simp only [Walk.stepJoint]
        split <;> simp
    have operand : Walk.stepOperand bs' (.symbol s) ≠ some ⟨bs, .joint⟩ := by
      unfold Walk.stepOperand
      split <;> simp_all
    cases p with
    | operand => exact absurd h operand
    | argument => exact absurd (by simpa [Walk.step, closes] using h) operand
    | joint => exact absurd h joint
    | name =>
      simp only [Walk.step] at h
      split at h
      · simp at h
      · exact absurd h joint

/-- Where an operand has ended that is no name, the lexeme in front has ended it. -/
theorem exists_last_of_joint {ls : List Lexeme} (operand : w.place = .operand)
    (run : w.run ls = some ⟨bs, .joint⟩) :
    ∃ front l, ls = front ++ [l] ∧ l.Closes ∧ ∀ n, l ≠ .name n := by
  rcases List.eq_nil_or_concat ls with rfl | ⟨front, l, rfl⟩
  · obtain rfl := Option.some.inj run
    cases operand
  rw [List.concat_eq_append, Walk.run_append] at run
  obtain ⟨w', -, last⟩ := Option.bind_eq_some_iff.mp run
  rw [Walk.run_cons] at last
  obtain ⟨w'', one, same⟩ := Option.bind_eq_some_iff.mp last
  obtain rfl := Option.some.inj same
  exact ⟨front, l, List.concat_eq_append, closes_of_step one⟩

end

end NumericChoice

/-! ## 2. One choice put back -/

/-- The lexemes of a text that stands for an expression are those that the walk accepts. -/
theorem exists_parsed_iff {s : Text} :
    (∃ e, parsed s = .ok e) ↔ ∃ ls, Lexes s ls ∧ Walk.start.Leads ls := by
  simp only [parsed_eq_ok_iff, Walk.leads_iff]
  constructor
  · rintro ⟨e, f, wf, -, lexes⟩
    exact ⟨f.lexemes, lexes, f, wf, rfl⟩
  · rintro ⟨_, lexes, f, wf, rfl⟩
    exact ⟨f.expr, f, wf, rfl, lexes⟩

/-- Texts whose lexemes make up a formula. -/
theorem exists_parsed_flatten {xs : List Text} {lss : List (List Lexeme)}
    (lexes : List.Forall₂ Lexes xs lss) (leads : Walk.start.Leads lss.flatten) :
    ∃ e, parsed xs.flatten = .ok e :=
  exists_parsed_iff.mpr ⟨_, .flatten lexes leads.apart, leads⟩

namespace NumericChoice

/-- What stands between the two texts stands directly beside an operand: one ends in front of it
that is no name, or a number starts there that can go on, or one begins behind it.  Places inside of
text literals are beside nothing. -/
inductive Beside (before after : Text) : Prop
  | behindOperand {front : List Lexeme} {l : Lexeme} (lexes : Lexes before (front ++ [l]))
      (closes : l.Closes) (other : ∀ n, l ≠ .name n)
  | behindNumber {x p q : Text} {front : List Lexeme} {y : Float} (whole : before = x ++ p)
      (lexes : Lexes x front) (begun : p ≠ []) (spells : Spells (p ++ q) (.number y) [])
  | beforeOperand {front : List Lexeme} (lexes : Lexes before front)
      (follows : (∃ d ∈ after.head?, isNameChar d = true ∨ d = '.') ∨
        after.stripLeft.head? = some '(')

theorem IsLiteral.exists_cons {s : Text} (h : IsLiteral s) :
    ∃ c cs, s = c :: cs ∧ (isDecimalDigit c = true ∧ IsUnsigned s ∨ c = '-' ∨ c = '(') := by
  cases h with
  | plain h =>
    obtain ⟨c, cs, rfl, digit⟩ := h.exists_cons
    exact ⟨c, cs, rfl, .inl ⟨digit, h⟩⟩
  | minus => exact ⟨_, _, rfl, .inr (.inl rfl)⟩
  | paren => exact ⟨_, _, rfl, .inr (.inr rfl)⟩

theorem IsLiteral.isBlank_head {c : Char} {cs : Text} (h : IsLiteral (c :: cs)) :
    isBlank c = false := by
  obtain ⟨d, ds, same, first⟩ := h.exists_cons
  obtain ⟨rfl, rfl⟩ := List.cons.inj same
  rcases first with ⟨digit, -⟩ | rfl | rfl
  · exact Lexer.isBlank_of_isNameChar
      (isNameChar_of_isDigitLike (isDigitLike_of_isDecimalDigit digit))
  · decide
  · decide

theorem IsLiteral.ne_nil {s : Text} (h : IsLiteral s) : s ≠ [] := by
  obtain ⟨c, cs, rfl, -⟩ := h.exists_cons
  exact List.cons_ne_nil c cs

theorem IsChoice.ne_nil {s : Text} (h : IsChoice s) : s ≠ [] := by
  rintro rfl
  obtain ⟨_, _, _, -, -, -, none⟩ := h.lexes
  cases none.eq_nil

/-- Where a number without a sign stops to be a word: nowhere, at its point, or at the sign of its
exponent. -/
theorem IsUnsigned.behind_word {q z : Text} (h : IsUnsigned (q ++ z))
    (word : ∀ c ∈ q, isNameChar c = true) (stop : z.head?.any isNameChar = false) :
    z = [] ∨ (∃ d ds, z = '.' :: d :: ds ∧ isDigitLike d = true) ∨
      ∃ sign ds, z = sign :: ds ∧ (sign = '+' ∨ sign = '-') ∧ IsUnsigned ds := by
  have like {ds : Text} (row : IsRow ds) : ∀ d ∈ ds, isDigitLike d = true :=
    fun d hd => isDigitLike_of_isDecimalDigit (row.2 d hd)
  have inWord {ds : Text} (row : IsRow ds) : ∀ d ∈ ds, isNameChar d = true :=
    fun d hd => isNameChar_of_isDigitLike (like row d hd)
  obtain ⟨whole, part, power, same, row, fraction, exponent⟩ := h
  have rest : z = (whole ++ (part ++ power)).dropWhile isNameChar := by
    rw [← same, List.dropWhile_append_of_pos word, Lexer.dropWhile_eq_self_of_head stop]
  rw [List.dropWhile_append_of_pos (inWord row)] at rest
  subst rest
  rcases fraction with rfl | ⟨ds, rfl, row'⟩
  · rcases exponent with rfl | ⟨mark, sign, ds, rfl, marks, signs, row'⟩
    · exact .inl rfl
    have mark : isNameChar mark = true := by rcases marks with rfl | rfl <;> decide
    rw [List.nil_append, List.dropWhile_cons_of_pos mark]
    rcases signs with rfl | rfl | rfl
    · exact .inl (List.dropWhile_eq_nil_iff.mpr (inWord row'))
    · exact .inr (.inr ⟨'+', ds, rfl, .inl rfl, ds, [], [], by simp, row', .inl rfl, .inl rfl⟩)
    · exact .inr (.inr ⟨'-', ds, rfl, .inr rfl, ds, [], [], by simp, row', .inl rfl, .inl rfl⟩)
  · obtain ⟨d, ds, rfl⟩ := List.exists_cons_of_ne_nil row'.1
    exact .inr (.inl ⟨d, ds ++ power, rfl, like row' d (.head _)⟩)

section

variable {before chosen choice after : Text}

theorem ends_of_not_beside {front : List Lexeme} (lexes : Lexes before front)
    (apart : ¬ Beside before after) : ∀ d ∈ after.head?, isNameChar d = false ∧ d ≠ '.' := by
  intro d hd
  refine ⟨Bool.eq_false_iff.mpr fun word => ?_, fun point => ?_⟩
  · exact apart (.beforeOperand lexes (.inl ⟨d, hd, .inl word⟩))
  · exact apart (.beforeOperand lexes (.inl ⟨d, hd, .inr point⟩))

/-- A choice between two lexemes. -/
theorem exists_parsed_of_between {front back : List Lexeme} (literal : IsLiteral chosen)
    (isChoice : IsChoice choice) (apart : ¬ Beside before after) (lexes : Lexes before front)
    (behind : Lexes (chosen ++ after) back) (leads : Walk.start.Leads (front ++ back)) :
    ∃ e, parsed (before ++ (choice ++ after)) = .ok e := by
  obtain ⟨f, form, lexesf⟩ := literal.exists_form
  obtain ⟨c, a, b, -, -, -, lexesChoice⟩ := isChoice.lexes
  have ends : ∀ l ∈ f.lexemes.getLast?, Ends l after := by
    cases form with
    | paren => exact fun l hl => Option.some.inj hl ▸ .inl rfl
    | plain | minus => exact fun l hl => Option.some.inj hl ▸ ends_of_not_beside lexes apart
  obtain ⟨back, rfl, lexesAfter⟩ := lexesf.of_append f.phrase.apart ends behind
  obtain ⟨⟨bs, p⟩, runFront, leads⟩ := Walk.leads_append.mp leads
  obtain ⟨w, runChosen, leads⟩ := Walk.leads_append.mp leads
  have operand : p ≠ .joint := by
    rintro rfl
    obtain ⟨front, l, rfl, closes, other⟩ := exists_last_of_joint rfl runFront
    exact apart (.behindOperand lexes closes other)
  obtain rfl := run_literal form operand runChosen
  have parts : List.Forall₂ Lexes [before, choice, after]
      [front, (Form.paren (.choice c a b)).lexemes, back] :=
    .cons lexes (.cons lexesChoice (.cons lexesAfter .nil))
  have leads' : Walk.start.Leads (front ++ ((Form.paren (.choice c a b)).lexemes ++ back)) :=
    Walk.leads_append.mpr ⟨_, runFront,
      Walk.leads_append.mpr ⟨_, run_choice c a b operand, leads⟩⟩
  simpa using exists_parsed_flatten parts (by simpa using leads')

/-- A choice inside of a text literal. -/
theorem exists_parsed_of_inside {x cs q rest s : Text} {front back : List Lexeme}
    (literal : IsLiteral chosen) (isChoice : IsChoice choice) (lexes : Lexes x front)
    (read : Lexer.readQuoted? (cs ++ q ++ rest) = some (s, rest)) (nonempty : q ≠ [])
    (whole : chosen ++ after = q ++ rest) (behind : Lexes rest back)
    (leads : Walk.start.Leads (front ++ .text s :: back)) :
    ∃ e, parsed (x ++ '"' :: cs ++ (choice ++ after)) = .ok e := by
  obtain ⟨q, s', rfl, spells⟩ := Spells.exists_exchanged read nonempty whole literal.unquoted
    isChoice.unquoted literal.ne_nil isChoice.ne_nil
  obtain ⟨w, runFront, leads⟩ := Walk.leads_append.mp leads
  obtain ⟨w', one, leads⟩ := Walk.leads_cons.mp leads
  have parts : List.Forall₂ Lexes [x, '"' :: (cs ++ (choice ++ q)), rest]
      [front, [.text s'], back] := .cons lexes (.cons spells.lexes (.cons behind .nil))
  have leads' : Walk.start.Leads (front ++ .text s' :: back) :=
    Walk.leads_append.mpr ⟨w, runFront,
      Walk.leads_cons.mpr ⟨w', Walk.step_text_congr w s s' ▸ one, leads⟩⟩
  simpa using exists_parsed_flatten parts (by simpa using leads')

/-- What a name leads to that a number goes on: where the rest of the number has ended. -/
theorem exists_leads_of_word {q z : Text} {bs : List Bracket} {front back : List Lexeme}
    (unsigned : IsUnsigned (q ++ z)) (word : ∀ c ∈ q, isNameChar c = true)
    (stop : (z ++ after).head?.any isNameChar = false) (lexes : Lexes before front)
    (apart : ¬ Beside before after) (behind : Lexes (z ++ after) back)
    (leads : Walk.Leads ⟨bs, .name⟩ back) :
    ∃ back', Lexes after back' ∧ Walk.Leads ⟨bs, .joint⟩ back' := by
  rcases unsigned.behind_word word (Lexer.head?_append_any stop) with rfl | ⟨d, ds, rfl, digit⟩ |
    ⟨sign, ds, rfl, signs, row⟩
  · refine ⟨back, behind, Walk.leads_of_name leads fun call => ?_⟩
    exact apart (.beforeOperand lexes (.inr (behind.stripLeft_of_openParen call)))
  · -- a number would follow the name
    generalize pointed : ('.' :: d :: ds) ++ after = s at behind
    cases behind with
    | nil => cases pointed
    | blank blank =>
      obtain ⟨rfl, -⟩ := List.cons.inj pointed
      exact absurd blank (by decide)
    | @token sp rest l ls spells =>
      obtain ⟨e, sp, rfl⟩ := List.exists_cons_of_ne_nil spells.ne_nil
      obtain ⟨rfl, more⟩ := List.cons.inj pointed
      obtain ⟨x, rfl⟩ := spells.exists_number (by
        rw [show sp ++ rest = d :: ds ++ after from more.symm]
        simp [Lexer.startsNumber, digit])
      obtain ⟨_, one, -⟩ := Walk.leads_cons.mp leads
      cases one
  · obtain ⟨x, -, read, -⟩ := row.exists_readFloat?
    have spells := row.spells read
    obtain ⟨o, single, joins⟩ : ∃ o : Operator, Symbol.ofChar? sign = some (.operator o) ∧
        Walk.step ⟨bs, .name⟩ (.symbol (.operator o)) = some ⟨bs, .operand⟩ := by
      rcases signs with rfl | rfl
      · exact ⟨.plus, rfl, rfl⟩
      · exact ⟨.minus, rfl, rfl⟩
    have lexesz : Lexes ([sign] ++ ds) ([.symbol (.operator o)] ++ [.number x]) :=
      (Lexer.lexes_symbol single).append spells.lexes (by simp [Apart])
    obtain ⟨back', rfl, behind'⟩ := lexesz.of_append (by simp [Apart])
      (fun l hl => Option.some.inj hl ▸ ends_of_not_beside lexes apart) behind
    obtain ⟨_, one, leads⟩ := Walk.leads_cons.mp leads
    rw [joins] at one
    cases one
    obtain ⟨_, ⟨⟩, leads⟩ := Walk.leads_cons.mp leads
    exact ⟨back', behind', leads⟩

/-- A choice behind a name, which a number without a sign would go on. -/
theorem exists_parsed_of_named {x p q n rest : Text} {front back : List Lexeme}
    (literal : IsLiteral chosen) (isChoice : IsChoice choice) (apart : ¬ Beside (x ++ p) after)
    (lexes : Lexes x front) (begun : p ≠ []) (more : q ≠ [])
    (spells : Spells (p ++ q) (.name n) rest) (whole : chosen ++ after = q ++ rest)
    (behind : Lexes rest back) (leads : Walk.start.Leads (front ++ .name n :: back)) :
    ∃ e, parsed (x ++ p ++ (choice ++ after)) = .ok e := by
  obtain ⟨rfl, named, word, stop⟩ := spells.name_cases begun
  obtain ⟨c, a, b, -, -, -, lexesChoice⟩ := isChoice.lexes
  have chain : (front ++ [Lexeme.name p]).IsChain Apart := by
    obtain ⟨chain, -, joint⟩ := List.isChain_append.mp leads.apart
    refine List.isChain_append.mpr ⟨chain, .singleton _, fun k hk m hm => ?_⟩
    exact Option.some.inj hm ▸ (joint k hk _ rfl).name_congr p
  have lexesBefore : Lexes (x ++ p) (front ++ [.name p]) := lexes.append named.lexes chain
  obtain ⟨⟨bs, place⟩, runFront, leadsName⟩ := Walk.leads_append.mp leads
  obtain ⟨w, one, leadsBack⟩ := Walk.leads_cons.mp leadsName
  rw [Walk.step_name_congr _ _ p] at one
  obtain rfl : w = ⟨bs, .name⟩ := by
    cases place <;> cases one <;> rfl
  -- the name goes on with a digit, so the number has no sign
  obtain ⟨d, q, rfl⟩ := List.exists_cons_of_ne_nil more
  have unsigned : IsUnsigned chosen := by
    obtain ⟨e, es, rfl, ⟨-, unsigned⟩ | rfl | rfl⟩ := literal.exists_cons
    · exact unsigned
    · obtain ⟨rfl, -⟩ := List.cons.inj whole
      exact absurd (word '-' (.head _)) (by decide)
    · obtain ⟨rfl, -⟩ := List.cons.inj whole
      exact absurd (word '(' (.head _)) (by decide)
  obtain ⟨z, rfl, rfl⟩ : ∃ z, chosen = d :: q ++ z ∧ rest = z ++ after := by
    rcases List.append_eq_append_iff.mp whole with ⟨a, split, rfl⟩ | ⟨z, split, same⟩
    · cases a with
      | nil => exact ⟨[], by simpa using split.symm, by simp⟩
      | cons e a =>
        have inside : e ∈ d :: q := split ▸ List.mem_append_right _ (.head _)
        have := (ends_of_not_beside lexesBefore apart e rfl).1
        simp [word e inside] at this
    · exact ⟨z, split, same⟩
  obtain ⟨back', lexesAfter, leadsAfter⟩ :=
    exists_leads_of_word unsigned word stop lexesBefore apart behind leadsBack
  have parts : List.Forall₂ Lexes [x, p, choice, after]
      [front, [.name p], (Form.paren (.choice c a b)).lexemes, back'] :=
    .cons lexes (.cons named.lexes (.cons lexesChoice (.cons lexesAfter .nil)))
  have leads' : Walk.start.Leads
      (front ++ .name p :: ((Form.paren (.choice c a b)).lexemes ++ back')) :=
    Walk.leads_append.mpr ⟨_, runFront, Walk.leads_cons.mpr ⟨_, one,
      Walk.leads_append.mpr ⟨_, run_choice c a b (by decide), leadsAfter⟩⟩⟩
  simpa using exists_parsed_flatten parts (by simpa using leads')

/-- **One choice put back.**  If a text reads as a formula once a choice in it is made, it does so
before, unless the choice stands beside an operand. -/
theorem exists_parsed_of_made (literal : IsLiteral chosen) (isChoice : IsChoice choice)
    (apart : ¬ Beside before after) (made : ∃ e, parsed (before ++ (chosen ++ after)) = .ok e) :
    ∃ e, parsed (before ++ (choice ++ after)) = .ok e := by
  obtain ⟨ls, lexes, leads⟩ := exists_parsed_iff.mp made
  rcases lexes.cut with ⟨front, back, rfl, lexesBefore, behind⟩ |
    ⟨x, p, q, rest, front, l, back, rfl, whole, begun, more, rfl, lexesx, spells, behind⟩
  · exact exists_parsed_of_between literal isChoice apart lexesBefore behind leads
  cases l with
  | number y => exact absurd (.behindNumber rfl lexesx begun (spells.truncate (x := []))) apart
  | text s =>
    obtain ⟨c, cs, rfl⟩ := List.exists_cons_of_ne_nil begun
    obtain ⟨rfl, read⟩ := spells.text_cases
    exact exists_parsed_of_inside literal isChoice lexesx read more whole behind leads
  | name n =>
    exact exists_parsed_of_named literal isChoice apart lexesx begun more spells whole behind leads
  | symbol s =>
    -- no number starts with an equals sign
    obtain rfl := spells.symbol_cases begun more
    obtain ⟨c, cs, rfl, first⟩ := literal.exists_cons
    obtain ⟨rfl, -⟩ := List.cons.inj whole
    exact absurd first (by simp [show isDecimalDigit '=' = false by decide])

end

/-! ## 3. A round of choices put back -/

/-- A text with its choices made, once. -/
def made (s : Text) : Text := (choices.piecesFrom none 0 s).flatMap Piece.text

@[simp] theorem made_nil : made [] = [] := rfl

theorem made_of_piecesFrom (before : Option Char) (s : Text) :
    (choices.piecesFrom before 0 s).flatMap Piece.text = made s := by
  rw [made, Finder.piecesFrom_congr_before (fun _ _ _ _ => rfl) before none]

theorem made_cons_of_none {c : Char} {cs : Text} (none : choices .none c cs = .none) :
    made (c :: cs) = c :: made cs := by
  rw [made, Finder.piecesFrom, none, List.flatMap_cons, made_of_piecesFrom]
  rfl

theorem made_of_choice {inner after chosen : Text}
    (chooses : choose? (inner ++ after) = some (chosen, after)) :
    made ('(' :: (inner ++ after)) = chosen ++ made after := by
  have found : choices none '(' (inner ++ after) = some ⟨inner.length, chosen⟩ := by
    simp [choices, chooses]
  have pieces := Finder.piecesFrom_of_found found
  rw [List.cons_append] at pieces
  rw [made, pieces, List.flatMap_cons, made_of_piecesFrom]
  rfl

/-- A choice is found only at a parenthesis. -/
theorem exists_choose_of_choices {c : Char} {cs : Text} {f : Find Text}
    (found : choices none c cs = some f) : c = '(' ∧ ∃ chosen after,
      choose? cs = some (chosen, after) := by
  unfold choices at found
  split at found
  · rename_i paren
    obtain ⟨⟨chosen, after⟩, chooses, -⟩ := Option.map_eq_some_iff.mp found
    exact ⟨beq_iff_eq.mp paren, chosen, after, chooses⟩
  · cases found

/-- Making choices brings no character to the front but that of a number, and that only in the place
of a parenthesis. -/
theorem made_cases (c : Char) (cs : Text) : c = '(' ∨ made (c :: cs) = c :: made cs := by
  cases found : choices none c cs with
  | none => exact .inr (made_cons_of_none found)
  | some f => exact .inl (exists_choose_of_choices found).1

/-- Blanks aside, a text with its choices made starts as it did, or with a number in the place of a
parenthesis. -/
theorem stripLeft_of_made {s : Text} {d : Char} (h : (made s).stripLeft.head? = some d) :
    s.stripLeft.head? = some d ∨
      s.stripLeft.head? = some '(' ∧ (isDecimalDigit d = true ∨ d = '-' ∨ d = '(') := by
  induction s with
  | nil => exact .inl h
  | cons c s ih =>
    cases found : choices none c s with
    | none =>
      rw [made_cons_of_none found] at h
      simp only [Text.stripLeft, List.dropWhile_cons] at h ih ⊢
      split at h
      · rename_i blank
        rw [if_pos blank]
        exact ih h
      · rename_i written
        rw [if_neg written]
        exact .inl h
    | some f =>
      obtain ⟨rfl, chosen, after, chooses⟩ := exists_choose_of_choices found
      obtain ⟨inner, rfl, -, literal⟩ := exists_of_choose? chooses
      obtain ⟨e, es, rfl, first⟩ := literal.exists_cons
      have first : isDecimalDigit e = true ∨ e = '-' ∨ e = '(' := first.imp_left And.left
      have written : isBlank e = false := literal.isBlank_head
      rw [made_of_choice chooses, List.cons_append, Text.stripLeft,
        List.dropWhile_cons_of_neg (by simp [written])] at h
      obtain rfl := Option.some.inj h
      exact .inr ⟨rfl, first⟩

/-- What a choice stands beside does not depend on the choices behind it. -/
theorem Beside.of_made {before after : Text} (h : Beside before (made after)) :
    Beside before after := by
  cases h with
  | behindOperand lexes closes other => exact .behindOperand lexes closes other
  | behindNumber whole lexes begun spells => exact .behindNumber whole lexes begun spells
  | beforeOperand lexes follows =>
    rcases follows with ⟨d, hd, joins⟩ | paren
    · cases after with
      | nil => cases hd
      | cons c after =>
        rcases made_cases c after with rfl | same
        · exact .beforeOperand lexes (.inr rfl)
        · rw [same] at hd
          exact .beforeOperand lexes (.inl ⟨d, hd, joins⟩)
    · exact .beforeOperand lexes (.inr ((stripLeft_of_made paren).elim id And.left))

/-- Some choice in the text stands beside an operand. -/
def OccursBeside (s : Text) : Prop :=
  ∃ before cs chosen after, s = before ++ '(' :: cs ∧ choose? cs = some (chosen, after) ∧
    Beside before after

/-- A text that reads as a formula once its choices are made does so before.  The choices are put
back from the left to the right, so that in front of each there is the text as it was. -/
theorem exists_parsed_of_rest (front rest : Text) (apart : ¬ OccursBeside (front ++ rest))
    (h : ∃ e, parsed (front ++ made rest) = .ok e) : ∃ e, parsed (front ++ rest) = .ok e := by
  match rest with
  | [] => exact h
  | c :: cs =>
    cases found : choices none c cs with
    | none =>
      have split (s : Text) : front ++ c :: s = front ++ [c] ++ s := by simp
      rw [made_cons_of_none found, split] at h
      rw [split] at apart ⊢
      exact exists_parsed_of_rest (front ++ [c]) cs apart h
    | some f =>
      obtain ⟨rfl, chosen, after, chooses⟩ := exists_choose_of_choices found
      obtain ⟨inner, rfl, isChoice, literal⟩ := exists_of_choose? chooses
      rw [made_of_choice chooses] at h
      have beside : ¬ Beside front (made after) := fun beside =>
        apart ⟨front, inner ++ after, chosen, after, rfl, chooses, beside.of_made⟩
      have back := exists_parsed_of_made literal isChoice beside h
      have split (s : Text) : front ++ '(' :: (inner ++ s) = front ++ '(' :: inner ++ s := by simp
      rw [split] at apart ⊢
      exact exists_parsed_of_rest (front ++ '(' :: inner) after apart (by simpa using back)
termination_by rest.length

/-! ## 4. All rounds -/

/-- In some round some choice stands beside an operand. -/
def ComesBeside (s : Text) : Prop := ∃ n, OccursBeside (choices.replaceAll^[n] s)

end NumericChoice

/-- **Making choices makes no formula of a text that is none**, unless in some round one of the
choices stands beside an operand. -/
theorem exists_parsed_of_simplifyChoices {s : Text} (apart : ¬ NumericChoice.ComesBeside s)
    (h : ∃ e, parsed (simplifyChoices s) = .ok e) : ∃ e, parsed s = .ok e := by
  fun_induction simplifyChoices s with
  | case1 => exact h
  | case2 s next changed ih =>
    have later : ¬ NumericChoice.ComesBeside next := by
      rintro ⟨n, beside⟩
      exact apart ⟨n + 1, beside⟩
    exact NumericChoice.exists_parsed_of_rest [] s (fun beside => apart ⟨0, beside⟩) (ih later h)

/-- Without that exception a text that is none becomes one. -/
example : simplifyChoices "2(1?3:4)".toList = "23".toList := by decide +kernel

end Haulage
