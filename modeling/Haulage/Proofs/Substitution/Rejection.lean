/-
# What is refused stays refused

A literal in the place of a name is an operand in the place of an operand, so with variables inlined
a text that is no formula does not become one (`rejected_inlineLiterals`).  The names are put back
from the left to the right, so that in front of each there is the text as it was, and behind it the
text with literals; if this reads as a formula with the literal, it does with the name
(`ReadsWithin.of_literal`), and it holds no more open at once.

This takes that the literal is read by itself.  `Fuses` says when it is not.  In `2e-X`, `1.X` and
`.X` a number that has begun goes on into the literal, and in `X.5` the literal goes on behind itself.
Only a number below zero stands between parentheses, and in `abs X` these make a call of the name in
front.  With the right numbers all of them are formulas, and none is without.
-/
import Haulage.Proofs.Formula.Choice
import Haulage.Proofs.Formula.Printing
import Haulage.Proofs.Substitution.Arity

namespace Haulage

open Lexer (Ends Lexes Spells)

/-! ## 1. What is held open -/

/-- A literal leaves open what the name leaves open, and may hold its own parentheses open. -/
theorem Nesting.within_literal (n : Nesting) (name : Text) (x : Float) :
    Within (n.through [.name name]) (n.through (Datum.number x).form.lexemes) := by
  rw [Datum.form, Form.ofFloat]
  split
  · exact ⟨rfl, rfl, rfl, by simp [Form.lexemes, Nesting.after]⟩
  · exact .refl _

/-- Does the text read as a formula that holds no more than this open at once? -/
def ReadsWithin (limit : Nat) (s : Text) : Prop :=
  ∃ ls, Lexes s ls ∧ Walk.start.Leads ls ∧ (Nesting.start.through ls).deepest ≤ limit

theorem exists_parsed_iff_readsWithin {s : Text} :
    (∃ e, parsed s = .ok e) ↔ ∃ limit, ReadsWithin limit s := by
  rw [exists_parsed_iff]
  constructor
  · rintro ⟨ls, lexes, leads⟩
    exact ⟨_, ls, lexes, leads, le_rfl⟩
  · rintro ⟨limit, ls, lexes, leads, -⟩
    exact ⟨ls, lexes, leads⟩

theorem exists_readExpression_iff_readsWithin {s : Text} :
    (∃ e, readExpression s = .ok e) ↔ ReadsWithin mostNesting s := by
  simp only [readExpression_eq_ok_iff, ReadsWithin, Walk.leads_iff]
  constructor
  · rintro ⟨e, f, wf, -, lexes, shallow⟩
    exact ⟨f.lexemes, lexes, ⟨f, wf, rfl⟩, shallow⟩
  · rintro ⟨_, lexes, ⟨f, wf, rfl⟩, shallow⟩
    exact ⟨f.expr, f, wf, rfl, lexes, shallow⟩

/-! ## 2. Literals -/

/-- A text with one lexeme and no blanks is its spelling. -/
theorem spells_of_lexes {s : Text} {l : Lexeme} (h : Lexes s [l])
    (written : ∀ c ∈ s, isBlank c = false) : Spells s l [] := by
  obtain ⟨front, sp, back, rfl, blanks, blanks', spells⟩ := exists_spelling_of_lexes h
  obtain rfl : front = [] := List.eq_nil_iff_forall_not_mem.mpr fun b mem => by
    simpa [blanks b mem] using written b (by simp [mem])
  obtain rfl : back = [] := List.eq_nil_iff_forall_not_mem.mpr fun b mem => by
    simpa [blanks' b mem] using written b (by simp [mem])
  simpa using spells

theorem isBlank_of_mem_numberText {x : Float} (finite : x.isFinite = true) :
    ∀ c ∈ numberText x, isBlank c = false := by
  intro c mem
  rcases mem_numberText finite mem with digit | mark
  · exact Lexer.isBlank_of_isNameChar (isNameChar_of_isDigitLike (isDigitLike_of_isDigit digit))
  · have marks : ∀ c ∈ ".e+-".toList, isBlank c = false := by decide
    exact marks c mark

/-- A literal of a number is spelled as one, or it stands between parentheses. -/
theorem Datum.literal_cases {x : Float} (finite : x.isFinite = true) :
    (∃ y, form (.number x) = .number y ∧ Spells (literal (.number x)) (.number y) []) ∨
    ∃ y cs, form (.number x) = .paren (.signed .minus (.number y)) ∧
      literal (.number x) = '(' :: cs := by
  have lexes := Datum.lexes_literal (d := .number x) finite
  rw [literal, Number.literal, form, Form.ofFloat] at *
  by_cases negative : x < 0
  · rw [if_pos negative, if_pos negative, if_pos ((less_zero_iff finite).mpr negative)]
    exact .inr ⟨x.abs, _, rfl, rfl⟩
  · have above : ¬ (Number.float x).less (.int 0) = true := mt (less_zero_iff finite).mp negative
    rw [if_neg negative, if_neg negative, if_neg above] at lexes ⊢
    exact .inl ⟨x.abs, rfl, spells_of_lexes lexes (isBlank_of_mem_numberText finite)⟩

/-- Put between two texts, does the literal run together with one of them? -/
inductive Fuses (literal before after : Text) : Prop
  /-- A number that begins in front goes on into the literal. -/
  | number {x p q : Text} {front : List Lexeme} {y : Float} (whole : before = x ++ p)
      (lexes : Lexes x front) (begun : p ≠ []) (more : q ≠ [])
      (into : q <+: literal ∨ literal <+: q) (spells : Spells (p ++ q) (.number y) [])
  /-- The literal is a number that goes on behind it. -/
  | behind {c : Char} {q : Text} {y : Float} (next : after.head? = some c)
      (spells : Spells (literal ++ c :: q) (.number y) [])
  /-- The literal stands between parentheses, with a name in front of it. -/
  | call {front : List Lexeme} {n : Text} (lexes : Lexes before (front ++ [.name n]))
      (paren : literal.head? = some '(')

/-- Where the name of a datum stands, its literal runs together with what is next to it. -/
def RunsTogether (data : List (Text × Datum)) (s : Text) : Prop :=
  ∃ before n after d, s = before ++ (n ++ after) ∧ data.lookup n = some d ∧
    inWord before.getLast? = false ∧ inWord after.head? = false ∧ Fuses d.literal before after

/-! ## 3. One name put back -/

namespace Walk

variable {bs bs' : List Bracket} {p : Place} {w : Walk} {ls : List Lexeme}

/-- What follows an operand may also follow a name. -/
theorem Leads.name (h : Leads ⟨bs, .joint⟩ ls) : Leads ⟨bs, .name⟩ ls := by
  cases ls with
  | nil => exact leads_nil.mpr ⟨(leads_nil.mp h).1, .inl rfl⟩
  | cons l ls =>
    obtain ⟨w', one, more⟩ := leads_cons.mp h
    have other : l ≠ .symbol .openParen := by
      rintro rfl
      cases one
    exact leads_cons.mpr ⟨w', step_name other ▸ one, more⟩

/-- Only a name leads to where a name has ended. -/
theorem step_symbol_ne_name (s : Symbol) : step ⟨bs', p⟩ (.symbol s) ≠ some ⟨bs, .name⟩ := by
  have operand : stepOperand bs' (.symbol s) ≠ some ⟨bs, .name⟩ := by
    unfold stepOperand
    split <;> simp_all
  have joint : stepJoint bs' (.symbol s) ≠ some ⟨bs, .name⟩ := by
    unfold stepJoint
    split <;> try simp_all
    all_goals split <;> simp_all
  cases p with
  | operand => exact operand
  | joint => exact joint
  | name => simp only [step]; split <;> simp_all
  | argument => simp only [step]; split <;> simp_all

/-- A walk that has come to a name has gone over it last. -/
theorem exists_name_of_run (operand : w.place ≠ .name) (run : w.run ls = some ⟨bs, .name⟩) :
    ∃ front n, ls = front ++ [.name n] := by
  rcases List.eq_nil_or_concat ls with rfl | ⟨front, l, rfl⟩
  · obtain rfl := Option.some.inj run
    exact absurd rfl operand
  rw [List.concat_eq_append, Walk.run_append] at run
  obtain ⟨⟨bs', p⟩, -, last⟩ := Option.bind_eq_some_iff.mp run
  rw [Walk.run_cons] at last
  obtain ⟨w', one, same⟩ := Option.bind_eq_some_iff.mp last
  obtain rfl := Option.some.inj same
  cases l with
  | name n => exact ⟨front, n, List.concat_eq_append⟩
  | number | text => cases p <;> cases one
  | symbol s => exact absurd one (step_symbol_ne_name s)

end Walk

/-- A literal of a number leads from where an operand may start to where it has ended.  Behind a name
it would make a call, with its own parentheses. -/
theorem Datum.run_literal {x : Float} (finite : x.isFinite = true) {bs : List Bracket} {p : Place}
    {w : Walk} (call : p = .name → (literal (.number x)).head? ≠ some '(')
    (run : Walk.run ⟨bs, p⟩ (form (.number x)).lexemes = some w) :
    w = ⟨bs, .joint⟩ ∧ (p = .operand ∨ p = .argument) := by
  rcases literal_cases finite with ⟨y, form, -⟩ | ⟨y, cs, form, paren⟩
  · rw [form] at run
    cases p with
    | operand => exact ⟨NumericChoice.run_literal (.plain y) (by decide) run, .inl rfl⟩
    | argument => exact ⟨NumericChoice.run_literal (.plain y) (by decide) run, .inr rfl⟩
    | name | joint => cases run
  · rw [form] at run
    cases p with
    | operand => exact ⟨NumericChoice.run_literal (.paren y) (by decide) run, .inl rfl⟩
    | argument => exact ⟨NumericChoice.run_literal (.paren y) (by decide) run, .inr rfl⟩
    | name => exact absurd (paren ▸ rfl) (call rfl)
    | joint => cases run

theorem IsName.spells {n : Text} (h : IsName n) : Spells n (.name n) [] := by
  obtain ⟨c, cs, rfl, alpha, inside⟩ := h
  refine .name (isNameStart_of_isAlpha alpha) (Bool.eq_false_iff.mpr fun digit => ?_) inside rfl
  rw [isAlpha_of_isDigitLike digit] at alpha
  cases alpha

section

variable {limit : Nat} {before n after : Text} {x : Float}

theorem Lexer.startsNumber_append {c : Char} {cs : Text} (h : startsNumber c cs = true)
    (more : Text) : startsNumber c (cs ++ more) = true := by
  cases cs with
  | nil =>
    have digit : isDigitLike c = true := by simpa [startsNumber] using h
    simp [startsNumber, digit]
  | cons d ds => exact h

/-- What a text begins with is its first lexeme, or begins the spelling of it. -/
theorem Lexer.Spells.of_lexes_or {sp rest : Text} {l : Lexeme} {ls : List Lexeme}
    (h : Spells sp l []) (lexes : Lexes (sp ++ rest) ls) :
    (∃ back, ls = l :: back ∧ Lexes rest back) ∨
    ∃ c q rest' l', rest = c :: q ++ rest' ∧ Spells (sp ++ c :: q) l' rest' := by
  generalize whole : sp ++ rest = s at lexes
  cases lexes with
  | nil => exact absurd (List.append_eq_nil_iff.mp whole).1 h.ne_nil
  | blank blank =>
    obtain ⟨c, cs, rfl⟩ := List.exists_cons_of_ne_nil h.ne_nil
    obtain ⟨rfl, -⟩ := List.cons.inj whole
    exact absurd h.isBlank (by simp [blank])
  | @token sp' rest' l' back spells more =>
    rcases List.append_eq_append_iff.mp whole with ⟨a, rfl, rfl⟩ | ⟨a, rfl, rfl⟩
    · cases a with
      | nil =>
        have alone : Spells sp l' ([] ++ rest') := by simpa using spells
        obtain ⟨-, rfl, -⟩ := h.unique alone.truncate rfl
        exact .inl ⟨back, rfl, more⟩
      | cons c q => exact .inr ⟨c, q, rest', l', rfl, spells⟩
    · -- the shorter spelling would end where the longer one goes on
      obtain ⟨same, rfl, -⟩ := h.unique spells.truncate (List.append_nil _)
      obtain rfl : a = [] := by simpa using same
      exact .inl ⟨back, rfl, more⟩

/-- Behind a literal that does not go on come the lexemes of what is there. -/
theorem exists_lexes_behind_literal (finite : x.isFinite = true)
    (apart : ¬ Fuses (Datum.literal (.number x)) before after) {ls : List Lexeme}
    (h : Lexes (Datum.literal (.number x) ++ after) ls) :
    ∃ back, ls = (Datum.form (.number x)).lexemes ++ back ∧ Lexes after back := by
  rcases Datum.literal_cases finite with ⟨y, form, spells⟩ | ⟨y, cs, form, -⟩
  · rcases spells.of_lexes_or h with ⟨back, rfl, more⟩ | ⟨c, q, rest, l, rfl, longer⟩
    · exact ⟨back, by simp [form, Form.lexemes], more⟩
    · obtain ⟨d, ds, same⟩ := List.exists_cons_of_ne_nil spells.ne_nil
      rw [same] at spells longer apart
      obtain ⟨y', rfl⟩ : ∃ y', l = .number y' := by
        cases spells with
        | number starts =>
          rw [List.append_nil] at starts
          have more := Lexer.startsNumber_append starts (c :: q ++ rest)
          rw [← List.append_assoc] at more
          exact longer.exists_number more
      exact absurd (.behind rfl (longer.truncate (x := []))) apart
  · have lexes := Datum.lexes_literal (d := .number x) finite
    refine lexes.of_append (Datum.form (.number x)).phrase.apart (fun l last => ?_) h
    rw [form] at last
    obtain rfl : .symbol .closeParen = l := by simpa [Form.lexemes] using last
    exact .inl rfl

/-- No lexeme goes on from the text in front into the literal. -/
theorem not_inside_of_not_fuses {front p q rest : Text} {ls : List Lexeme} {l : Lexeme}
    (finite : x.isFinite = true) (outside : inWord (front ++ p).getLast? = false)
    (plain : '"' ∉ front ++ p) (apart : ¬ Fuses (Datum.literal (.number x)) (front ++ p) after)
    (lexes : Lexes front ls) (begun : p ≠ []) (more : q ≠ []) (spells : Spells (p ++ q) l rest) :
    Datum.literal (.number x) ++ after ≠ q ++ rest := by
  intro whole
  cases l with
  | number y =>
    refine apart (.number rfl lexes begun more ?_ (spells.truncate (x := [])))
    rcases List.append_eq_append_iff.mp whole with ⟨a, same, -⟩ | ⟨a, same, -⟩
    · exact .inr ⟨a, same.symm⟩
    · exact .inl ⟨a, same.symm⟩
  | text s =>
    obtain ⟨c, cs, rfl⟩ := List.exists_cons_of_ne_nil begun
    obtain ⟨rfl, -⟩ := spells.text_cases
    exact absurd (by simp) plain
  | name m =>
    obtain ⟨-, named, -, -⟩ := spells.name_cases begun
    obtain ⟨-, -, -, inside⟩ := word_of_spells named
    have word : IsWord p := ⟨begun, inside⟩
    rw [List.getLast?_append_of_ne_nil _ begun, word.inWord_getLast?] at outside
    cases outside
  | symbol s =>
    -- no literal starts with an equals sign
    obtain rfl := spells.symbol_cases begun more
    rcases Datum.literal_cases finite with ⟨y, -, number⟩ | ⟨y, cs, -, paren⟩
    · obtain ⟨d, ds, same⟩ := List.exists_cons_of_ne_nil number.ne_nil
      rw [same] at whole number
      obtain ⟨rfl, -⟩ := List.cons.inj whole
      exact absurd (number.mem_number (.head ds)) (by decide)
    · rw [paren] at whole
      exact absurd (List.cons.inj whole).1 (by decide)

/-- **One name put back.**  If a text reads as a formula with a literal, it does with the name, unless
the literal runs together with what is next to it. -/
theorem ReadsWithin.of_literal (finite : x.isFinite = true) (name : IsName n)
    (outside : inWord before.getLast? = false) (plain : '"' ∉ before)
    (apart : ¬ Fuses (Datum.literal (.number x)) before after)
    (h : ReadsWithin limit (before ++ (Datum.literal (.number x) ++ after))) :
    ReadsWithin limit (before ++ (n ++ after)) := by
  obtain ⟨ls, lexes, leads, shallow⟩ := h
  rcases lexes.cut with ⟨front, back, rfl, lexesBefore, behind⟩ |
    ⟨x', p, q, rest, front, l, back, rfl, whole, begun, more, rfl, lexesx, spells, -⟩
  · obtain ⟨back, rfl, lexesAfter⟩ := exists_lexes_behind_literal finite apart behind
    obtain ⟨⟨bs, p⟩, runFront, leads⟩ := Walk.leads_append.mp leads
    obtain ⟨w, runLiteral, leads⟩ := Walk.leads_append.mp leads
    obtain ⟨rfl, place⟩ : w = ⟨bs, .joint⟩ ∧ (p = .operand ∨ p = .argument) := by
      refine Datum.run_literal finite ?_ runLiteral
      rintro rfl paren
      obtain ⟨front, m, rfl⟩ := Walk.exists_name_of_run (by decide) runFront
      exact apart (.call lexesBefore paren)
    have named : Walk.run ⟨bs, p⟩ [.name n] = some ⟨bs, .name⟩ := by
      rcases place with rfl | rfl <;> rfl
    have leads' : Walk.start.Leads (front ++ ([.name n] ++ back)) :=
      Walk.leads_append.mpr ⟨_, runFront, Walk.leads_append.mpr ⟨_, named, leads.name⟩⟩
    have parts : List.Forall₂ Lexes [before, n, after] [front, [.name n], back] :=
      .cons lexesBefore (.cons name.spells.lexes (.cons lexesAfter .nil))
    have lexes' := Lexes.flatten parts (by simpa using leads'.apart)
    refine ⟨front ++ ([.name n] ++ back), by simpa using lexes', leads', ?_⟩
    refine le_trans ?_ shallow
    simp only [Nesting.through_append]
    exact ((Nesting.within_literal _ n x).through back).deepest
  · exact absurd whole (not_inside_of_not_fuses finite outside plain apart lexesx begun more spells)

end

/-! ## 4. All names put back -/

section

variable {data : List (Text × Datum)} (names : ∀ entry ∈ data, IsName entry.1)
  (numbers : ∀ entry ∈ data, ∃ x, entry.2 = .number x ∧ x.isFinite = true) {limit : Nat}

include names

/-- Inlining keeps the first character of a text that starts with no word. -/
theorem head?_inlineNames {before : Option Char} {x : Text} (stop : inWord x.head? = false) :
    (inlineNames data before x).head? = x.head? := by
  cases x with
  | nil => rfl
  | cons c x =>
    rw [inlineNames_cons names (.inl (isAlpha_eq_false stop))]
    rfl

/-- What a literal runs together with does not depend on what is inlined behind it. -/
theorem Fuses.of_inlineNames {literal front after : Text} {before : Option Char}
    (stop : inWord after.head? = false)
    (h : Fuses literal front (inlineNames data before after)) : Fuses literal front after := by
  cases h with
  | number whole lexes begun more into spells => exact .number whole lexes begun more into spells
  | behind next spells => exact .behind (head?_inlineNames names stop ▸ next) spells
  | call lexes paren => exact .call lexes paren

include numbers

/-- The names behind a part of the text are put back one by one, each behind the text as it was. -/
theorem readsWithin_of_inlineNames (front rest : Text) (plain : '"' ∉ front ++ rest)
    (apart : ¬ RunsTogether data (front ++ rest))
    (start : inWord front.getLast? = false ∨ inWord rest.head? = false)
    (h : ReadsWithin limit (front ++ inlineNames data front.getLast? rest)) :
    ReadsWithin limit (front ++ rest) := by
  induction rest using Text.word_induction generalizing front with
  | nil => exact h
  | other c cs outside ih =>
    rw [inlineNames_cons names (.inl (isAlpha_eq_false outside)), List.append_cons] at h
    rw [List.append_cons] at plain apart ⊢
    refine ih (front ++ [c]) plain apart (.inl ?_) ?_
    · simpa using outside
    · simpa using h
  | word w z word stop ih =>
    obtain ⟨c, cs, rfl⟩ := List.exists_cons_of_ne_nil word.ne_nil
    have outside : inWord front.getLast? = false := start.resolve_right (by simp [word.all c (.head cs)])
    have last : lastOr front.getLast? (c :: cs) = (front ++ c :: cs).getLast? := by
      rw [← lastOr_none, ← lastOr_none, lastOr_append]
    rw [inlineNames_word names word.all outside stop, last] at h
    rw [← List.append_assoc] at plain apart ⊢
    refine ih (front ++ c :: cs) plain apart (.inr stop) ?_
    cases found : data.lookup (c :: cs) with
    | none => simpa [found] using h
    | some d =>
      have mem := mem_of_lookup found
      obtain ⟨x, rfl, finite⟩ := numbers _ mem
      rw [found, Option.map_some, Option.getD_some] at h
      rw [List.append_assoc]
      refine ReadsWithin.of_literal finite (names _ mem) outside ?_ (fun fuses => ?_) h
      · exact fun quote => plain (by simp [quote])
      · exact apart ⟨front, c :: cs, z, _, List.append_assoc .., found, outside, stop,
          fuses.of_inlineNames names stop⟩

end

/-- **What is refused stays refused.**  A text without text literals that is no formula is none with
numbers inlined, and one that is refused is refused with them, also where it nests too deeply for the
machine; unless a number runs together with what is next to the name that it stands for. -/
theorem rejected_inlineLiterals {data : List (Text × Datum)} {s : Text} (plain : '"' ∉ s)
    (commas : CommasApart s) (names : ∀ entry ∈ data, IsName entry.1)
    (numbers : ∀ entry ∈ data, ∃ x, entry.2 = .number x ∧ x.isFinite = true)
    (apart : ¬ RunsTogether data s) :
    (∀ f, parsed s = .error f → ∃ g, parsed (inlineLiterals (dataLiterals data) s) = .error g) ∧
    ∀ f, readExpression s = .error f →
      ∃ g, readExpression (inlineLiterals (dataLiterals data) s) = .error g := by
  have whole : inlineLiterals (dataLiterals data) s = inlineNames data none s := by
    rw [inlineLiterals, outsideLiterals_of_plain rfl plain, replaceAll_decimalCommas commas]
    rfl
  have back (limit : Nat) (h : ReadsWithin limit (inlineLiterals (dataLiterals data) s)) :
      ReadsWithin limit s :=
    readsWithin_of_inlineNames names numbers [] s plain apart (.inl rfl) (whole ▸ h)
  constructor
  · intro f refused
    cases parses : parsed (inlineLiterals (dataLiterals data) s) with
    | error g => exact ⟨g, rfl⟩
    | ok e =>
      obtain ⟨limit, reads⟩ := exists_parsed_iff_readsWithin.mp ⟨e, parses⟩
      obtain ⟨e', parses'⟩ := exists_parsed_iff_readsWithin.mpr ⟨limit, back limit reads⟩
      rw [refused] at parses'
      cases parses'
  · intro f refused
    cases read : readExpression (inlineLiterals (dataLiterals data) s) with
    | error g => exact ⟨g, rfl⟩
    | ok e =>
      have reads := exists_readExpression_iff_readsWithin.mp ⟨e, read⟩
      obtain ⟨e', read'⟩ := exists_readExpression_iff_readsWithin.mpr (back _ reads)
      rw [refused] at read'
      cases read'

/-- A number that is not below zero makes no call of the name in front of it. -/
theorem rejected_inlineLiterals_of_abs :
    let data : List (Text × Datum) := [(['X'], .number 3)]
    inlineLiterals (dataLiterals data) "abs X".toList = "abs 3".toList ∧
      ∃ g, readExpression (inlineLiterals (dataLiterals data) "abs X".toList) = .error g := by
  intro data
  have refused : readExpression "abs X".toList = .error (.trailing ⟨.name ['X'], 4⟩) := by
    cbv
  have commas : CommasApart "abs X".toList := by
    rintro d e ⟨x, y, whole⟩ -
    have mem : ',' ∈ "abs X".toList := by simp [← whole]
    exact absurd mem (by decide)
  have apart : ¬ RunsTogether data "abs X".toList := by
    rintro ⟨before, n, after, d, whole, found, -, -, fuses⟩
    obtain ⟨rfl, rfl⟩ : n = ['X'] ∧ d = .number 3 := by
      obtain same := List.mem_singleton.mp (mem_of_lookup found)
      exact Prod.mk.inj same
    -- the name stands at the end, behind a blank
    have ends : "abs ".toList ++ 'X' :: [] = before ++ 'X' :: after := whole
    obtain ⟨rfl, -, rfl⟩ := (List.append_cons_inj_of_notMem (by decide) (by decide)).mp ends
    cases fuses with
    | @number x p q front y whole _ begun more _ spells =>
      have last : ' ' ∈ p := by
        have := List.getLast?_append_of_ne_nil x begun
        rw [← whole] at this
        exact List.mem_of_getLast? this.symm
      exact absurd (spells.mem_number (List.mem_append_left q last)) (by decide)
    | behind next => cases next
    | call _ paren => exact absurd paren (by decide +kernel)
  refine ⟨by decide +kernel, ?_⟩
  refine (rejected_inlineLiterals (by decide) commas ?_ ?_ apart).2 _ refused
  · intro entry mem
    obtain rfl := List.mem_singleton.mp mem
    exact ⟨'X', [], rfl, by decide, by simp⟩
  · intro entry mem
    obtain rfl := List.mem_singleton.mp mem
    exact ⟨3, rfl, by decide +kernel⟩

/-- Next to a point it goes on as a number, and a text that is no formula becomes one. -/
example : inlineLiterals (dataLiterals [(['X'], .number 3)]) "X.5".toList = "3.5".toList := by
  decide +kernel

end Haulage
