/-
# The names that are left after inlining

Inlining puts a literal in place of every word outside text literals that is the name of a datum.  So
the names among the lexemes of what results are words of the text that name no datum, or words of
numbers (`of_mem_lexes_inlineLiterals`).

This is said stretch by stretch, and needs the lexer to find the same text literals as the search.
The two differ on a line break behind a backslash only: the lexer takes it for a character of the
text, the search does not.  A quote that is not closed is closed by no inlining either
(`Inlines.closed`), so where the lexer finds a text the search has found one.
-/
import Haulage.Proofs.Shorthand.Words
import Haulage.Proofs.Substitution.Arity

namespace Haulage

open Lexer (Lexes Spells Unquoted readQuoted?)

/-! ## 1. Names among lexemes are words -/

/-- A name that a text is cut into stands in it. -/
theorem standsIn_of_mem_lexes {s : Text} {ls : List Lexeme} (h : Lexes s ls)
    (apart : ls.IsChain Lexer.Apart) {n : Text} (mem : .name n ∈ ls) : StandsIn n s := by
  induction h with
  | nil => cases mem
  | @blank c cs ls blank _ ih =>
    exact (ih apart mem).of_part (.of_append_right (x := [c]) (.inl (isNameChar_of_isBlank blank)))
  | @token sp rest l ls spells more ih =>
    have ends : Lexer.Ends l rest := more.ends fun l' next => apart.rel_head? next
    have cut : NoCut sp rest := by
      have between := between_of_spells spells ends none
      rwa [lastOr_none] at between
    rcases List.mem_cons.mp mem with rfl | mem
    · obtain rfl := eq_of_spells_name spells
      obtain ⟨-, -, -, inside⟩ := word_of_spells spells
      exact ⟨⟨spells.ne_nil, inside⟩, .of_append_left cut⟩
    · exact (ih apart.of_cons mem).of_part (.of_append_right cut)

/-! ## 2. The words of a stretch -/

section Stretches

variable {data : List (Text × Datum)} (names : ∀ entry ∈ data, IsName entry.1)
  {P : Text → Prop}

include names

/-- No word begins where none did. -/
theorem inWord_head?_inlineNames {before : Option Char} {x : Text}
    (stop : inWord x.head? = false) : inWord (inlineNames data before x).head? = false := by
  cases x with
  | nil => rfl
  | cons c x =>
    rw [inlineNames_cons names (.inl (isAlpha_eq_false stop))]
    exact stop

/-- **The words that are left of a stretch.** -/
theorem allWords_stretch (literals : ∀ entry ∈ data, AllWords P entry.2.literal) (x : Text)
    (words : ∀ n, StandsIn n x → data.lookup n = none → P n) {before before' : Option Char}
    (start : inWord before' = false ∨ inWord x.head? = false) :
    AllWords P (inlineNames data before' (pointed before x)) := by
  induction x using Text.word_induction generalizing before before' with
  | nil => exact .of_wordless (List.forall_mem_nil _)
  | other c cs outside ih =>
    -- the character stays no character of a word
    have single {d : Char} (other : isNameChar d = false) {y : Text} (hy : AllWords P y) :
        AllWords P (d :: y) :=
      AllWords.append (x := [d]) (.of_wordless (by simpa using other)) hy (.inl other)
    have words' : ∀ n, StandsIn n cs → data.lookup n = none → P n := fun n stands =>
      words n (stands.of_part (.of_append_right (x := [c]) (.inl outside)))
    rcases pointed_cons before c cs with kept | ⟨rfl, -, -, point⟩
    · rw [kept, inlineNames_cons names (.inl (isAlpha_eq_false outside))]
      exact single outside (ih words' (.inl outside))
    · rw [point, inlineNames_cons names (.inl (by decide))]
      exact single (by decide) (ih words' (.inl (by decide)))
  | word w z word stop ih =>
    have cut : NoCut w z := .inr stop
    have rest : AllWords P (inlineNames data (lastOr before' w) (pointed (lastOr before w) z)) :=
      ih (fun n stands => words n (stands.of_part (.of_append_right cut))) (.inr stop)
    obtain ⟨c, cs, rfl⟩ := List.exists_cons_of_ne_nil word.ne_nil
    have outside : inWord before' = false := start.resolve_right (by simp [word.all c (.head cs)])
    rw [pointed_word_append word.all,
      inlineNames_word names word.all outside (inWord_head?_pointed stop)]
    refine AllWords.append ?_ rest (.inr (inWord_head?_inlineNames names (inWord_head?_pointed stop)))
    cases found : data.lookup (c :: cs) with
    | some d => exact literals _ (mem_of_lookup found)
    | none => exact .of_word word.all (words _ ⟨word, .of_append_left cut⟩ found)

end Stretches

/-! ## 3. Quotes -/

/-- A text in front of which the mark stands is empty or has a first character. -/
theorem ne_of_tails {c mark : Char} {cs : Text} (empty : c = mark → cs = [] → False)
    (cons : ∀ d ds, c = mark → cs = d :: ds → False) : c ≠ mark := by
  rintro rfl
  cases cs with
  | nil => exact empty rfl rfl
  | cons d ds => exact cons d ds rfl rfl

/-- Does the text go up to a quote that closes a literal? -/
def Closed (s : Text) : Prop := (readQuoted? s).isSome = true

namespace Closed

variable {c : Char} {cs : Text}

theorem quote (cs : Text) : Closed ('"' :: cs) := rfl

theorem escape_iff : Closed ('\\' :: cs) ↔ cs ≠ [] ∧ Closed cs.tail := by
  cases cs with
  | nil => simp [Closed, readQuoted?]
  | cons c cs => simp [Closed, readQuoted?]

theorem append_iff {v : Text} (plain : Unquoted v) : Closed (v ++ cs) ↔ Closed cs := by
  simp [Closed, Lexer.readQuoted?_append_unquoted plain]

theorem cons_iff (quote : c ≠ '"') (escape : c ≠ '\\') : Closed (c :: cs) ↔ Closed cs :=
  append_iff (v := [c]) (.single ⟨quote, escape⟩)

/-- **The search finds the literals of the lexer**, except where one has a line break behind a
backslash. -/
theorem exists_literalLength? (h : Closed cs) (breaks : ¬ BreakEscaped cs) :
    ∃ n, literalLength? cs = some n := by
  have inner {x y : Text} (breaks : ¬ BreakEscaped (x ++ y)) : ¬ BreakEscaped y := fun escaped =>
    breaks (escaped.trans (List.suffix_append x y).isInfix)
  fun_induction literalLength? cs with
  | case1 => cases h
  | case2 => exact ⟨1, rfl⟩
  | case3 c cs line =>
    obtain rfl := eq_of_beq line
    exact absurd ⟨[], cs, rfl⟩ breaks
  | case4 c cs _ ih =>
    obtain ⟨n, length⟩ := ih (escape_iff.mp h).2 (inner (x := ['\\', c]) breaks)
    exact ⟨n + 2, by rw [length]; rfl⟩
  | case5 => cases h
  | case6 c cs quote escape last ih =>
    have other := ne_of_tails last escape
    obtain ⟨n, length⟩ := ih ((cons_iff quote other).mp h) (inner (x := [c]) breaks)
    exact ⟨n + 1, by rw [length]; rfl⟩

/-- What the search takes for a literal is one to the lexer. -/
theorem exists_readQuoted? {n : Nat} (h : literalLength? cs = some n) :
    ∃ s, ∀ rest, readQuoted? (cs.take n ++ rest) = some (s, rest) := by
  fun_induction literalLength? cs generalizing n with
  | case1 => cases h
  | case2 =>
    obtain rfl := Option.some.inj h
    exact ⟨[], fun rest => rfl⟩
  | case3 => cases h
  | case4 c cs _ ih =>
    obtain ⟨m, found, rfl⟩ := Option.map_eq_some_iff.mp h
    obtain ⟨s, read⟩ := ih found
    refine ⟨c :: s, fun rest => ?_⟩
    exact Option.map_eq_some_iff.mpr ⟨(s, rest), read rest, rfl⟩
  | case5 => cases h
  | case6 c cs quote escape last ih =>
    have other := ne_of_tails last escape
    obtain ⟨m, found, rfl⟩ := Option.map_eq_some_iff.mp h
    obtain ⟨s, read⟩ := ih found
    refine ⟨c :: s, fun rest => ?_⟩
    rw [List.take_succ_cons, List.cons_append, Lexer.readQuoted?_cons quote other, read]
    rfl

end Closed

section Quotes

variable {data : List (Text × Datum)} {before : Option Char} {x rest t : Text}

/-- A text without quotes gets none. -/
theorem Inlines.quote_not_mem (plain : ∀ entry ∈ data, Unquoted entry.2.literal)
    (h : Inlines data before x rest t) (none : '"' ∉ x) : '"' ∉ t := by
  induction h with
  | nil => exact none
  | keep _ ih =>
    rw [List.mem_cons, not_or] at none ⊢
    exact ⟨none.1, ih none.2⟩
  | comma _ _ _ ih =>
    rw [List.mem_cons, not_or] at none ⊢
    exact ⟨by decide, ih none.2⟩
  | name found _ _ _ ih =>
    rw [List.mem_append, not_or]
    refine ⟨fun mem => (plain _ (mem_of_lookup found) _ mem).1 rfl, ih fun mem => none ?_⟩
    exact .tail _ (List.mem_append_right _ mem)

/-- **What is rewritten is not closed by that.**  Where a backslash stands in front of what is
rewritten it takes the first character of that. -/
theorem Inlines.closed (names : ∀ entry ∈ data, IsName entry.1)
    (plain : ∀ entry ∈ data, Unquoted entry.2.literal ∧ entry.2.literal ≠ [])
    (h : Inlines data before x rest t) :
    (Closed t → Closed x) ∧ (t ≠ [] → Closed t.tail → x ≠ [] ∧ Closed x.tail) := by
  induction h with
  | nil => exact ⟨id, fun nonempty => absurd rfl nonempty⟩
  | @keep _ c x rest t _ ih =>
    refine ⟨fun closed => ?_, fun _ closed => ⟨List.cons_ne_nil c x, ih.1 closed⟩⟩
    by_cases quote : c = '"'
    · exact quote ▸ .quote x
    by_cases escape : c = '\\'
    · subst escape
      rw [Closed.escape_iff] at closed ⊢
      exact ih.2 closed.1 closed.2
    · rw [Closed.cons_iff quote escape] at closed ⊢
      exact ih.1 closed
  | @comma _ x rest t _ _ _ ih =>
    refine ⟨fun closed => ?_, fun _ closed => ⟨List.cons_ne_nil _ x, ih.1 closed⟩⟩
    rw [Closed.cons_iff (by decide) (by decide)] at closed ⊢
    exact ih.1 closed
  | @name _ c cs x rest t d found _ _ _ ih =>
    have word := unquoted_of_word (names _ (mem_of_lookup found)).all
    obtain ⟨literal, nonempty⟩ := plain _ (mem_of_lookup found)
    dsimp only at word literal nonempty
    refine ⟨fun closed => ?_, fun _ closed => ⟨List.cons_ne_nil c _, ?_⟩⟩
    · rw [← List.cons_append, Closed.append_iff word]
      exact ih.1 ((Closed.append_iff literal).mp closed)
    · obtain ⟨e, es, whole⟩ := List.exists_cons_of_ne_nil nonempty
      rw [whole, List.cons_append, List.tail_cons] at closed
      rw [whole] at literal
      rw [List.tail_cons, Closed.append_iff fun c mem => word c (.tail _ mem)]
      exact ih.1 ((Closed.append_iff fun c mem => literal c (.tail _ mem)).mp closed)

end Quotes

/-! ## 4. The lexemes of the whole -/

/-- A quote that is not in a text already starts one. -/
theorem exists_lexes_of_quote {x y : Text} {ls : List Lexeme} (h : Lexes (x ++ '"' :: y) ls)
    (plain : '"' ∉ x) :
    ∃ front back, ls = front ++ back ∧ Lexes x front ∧ Lexes ('"' :: y) back := by
  rcases h.cut with cut | ⟨x', p, q, y', front, l, back, rfl, whole, hp, hq, rfl, -, spells, -⟩
  · exact cut
  · obtain ⟨c, p, rfl⟩ := List.exists_cons_of_ne_nil hp
    obtain ⟨d, q, rfl⟩ := List.exists_cons_of_ne_nil hq
    obtain ⟨rfl, -⟩ := List.cons.inj whole
    by_cases text : ∃ s, l = .text s
    · obtain ⟨s, rfl⟩ := text
      obtain ⟨rfl, -⟩ := spells.text_cases
      exact absurd (by simp) plain
    · exact absurd (by simp) (quote_not_mem_of_spells spells (not_exists.mp text))

/-- A text to the lexer is closed. -/
theorem closed_of_lexes {y : Text} {ls : List Lexeme} (h : Lexes ('"' :: y) ls) : Closed y := by
  generalize whole : '"' :: y = s at h
  cases h with
  | nil => cases whole
  | blank blank =>
    cases whole
    exact absurd blank (by decide)
  | @token sp rest l _ spells _ =>
    obtain ⟨c, cs, rfl⟩ := List.exists_cons_of_ne_nil spells.ne_nil
    obtain ⟨rfl, rfl⟩ := List.cons.inj whole
    by_cases text : ∃ s, l = .text s
    · obtain ⟨s, rfl⟩ := text
      have read := spells.text_cases.2
      rw [Closed, show cs.append rest = cs ++ rest from rfl, read]
      rfl
    · exact absurd List.mem_cons_self (quote_not_mem_of_spells spells (not_exists.mp text))

section Inlining

variable {data : List (Text × Datum)} (names : ∀ entry ∈ data, IsName entry.1)
  (numbers : ∀ entry ∈ data, ∃ x, entry.2 = .number x ∧ x.isFinite = true) {P : Text → Prop}

include names numbers

/-- Where the lexer finds a text in what was inlined, the search has found a literal. -/
theorem exists_literalLength?_of_lexes {p cs : Text} {ls : List Lexeme} (plain : '"' ∉ p)
    (breaks : ¬ BreakEscaped cs)
    (h : Lexes (inlineLiterals (dataLiterals data) (p ++ '"' :: cs)) ls) :
    ∃ n, literalLength? cs = some n := by
  have literals := unquoted_of_numbers numbers
  have unquoted : ∀ entry ∈ data, Unquoted entry.2.literal := fun entry mem => (literals entry mem).1
  obtain ⟨t₁, t₂, whole, front, back⟩ := (inlines_inlineLiterals names (p ++ '"' :: cs)).split names
    (.inr (by decide : isNameChar '"' = false))
  rw [whole] at h
  obtain ⟨_, more, rfl | ⟨comma, -⟩⟩ := back.cons_cases names (by decide)
  · obtain ⟨-, back, -, -, lexes⟩ := exists_lexes_of_quote h (front.quote_not_mem unquoted plain)
    exact ((more.closed names literals).1 (closed_of_lexes lexes)).exists_literalLength? breaks
  · exact absurd comma (by decide)

/-- **The names that are left after inlining** are words of the text that name no datum, or words of
numbers. -/
theorem of_mem_lexes_inlineLiterals (takes : TakesSpellings P) {t : Text}
    (breaks : ¬ BreakEscaped t) (words : ∀ n, StandsIn n t → data.lookup n = none → P n)
    {ls : List Lexeme} (h : Lexes (inlineLiterals (dataLiterals data) t) ls)
    (apart : ls.IsChain Lexer.Apart) {n : Text} (mem : .name n ∈ ls) : P n := by
  induction size : t.length using Nat.strong_induction_on generalizing t ls with
  | _ length ih =>
  subst size
  have literals : ∀ entry ∈ data, AllWords P entry.2.literal := fun entry mem => by
    obtain ⟨x, number, -⟩ := numbers entry mem
    rw [number]
    exact (Tame.literal takes (.float x)).words
  have stretch {p : Text} (part : Part p t) : AllWords P (inlineNames data none (pointed none p)) :=
    allWords_stretch names literals p (fun n stands => words n (stands.of_part part)) (.inl rfl)
  by_cases quote : '"' ∈ t
  · obtain ⟨p, cs, rfl, plain⟩ := List.eq_append_cons_of_mem quote
    have inside : ¬ BreakEscaped cs := fun escaped =>
      breaks (escaped.trans (infix_behind p '"' cs))
    obtain ⟨k, length⟩ := exists_literalLength?_of_lexes names numbers plain inside h
    have whole : inlineLiterals (dataLiterals data) (p ++ '"' :: cs) =
        inlineNames data none (pointed none p) ++
          '"' :: (cs.take k ++ inlineLiterals (dataLiterals data) (cs.drop k)) :=
      outsideLiterals_append_of_length rfl plain length
    rw [whole] at h
    -- the stretch in front of the literal, and behind it the rest
    have plain' : '"' ∉ inlineNames data none (pointed none p) :=
      (inlines_stretch names p rfl).quote_not_mem
        (fun entry mem => (unquoted_of_numbers numbers entry mem).1) plain
    obtain ⟨front, back, rfl, hfront, hback⟩ := exists_lexes_of_quote h plain'
    obtain ⟨s, read⟩ := Closed.exists_readQuoted? length
    have spells : Spells ('"' :: cs.take k) (.text s)
      (inlineLiterals (dataLiterals data) (cs.drop k)) := .text (read _)
    obtain ⟨back, rfl, hrest⟩ := spells.of_lexes hback
    rcases List.mem_append.mp mem with mem | mem
    · have part : Part p (p ++ '"' :: cs) :=
        .of_append_left (.inr (by decide : isNameChar '"' = false))
      exact stretch part n (standsIn_of_mem_lexes hfront apart.left_of_append mem)
    · have mem : .name n ∈ back := (List.mem_cons.mp mem).resolve_left nofun
      have close : inWord (p ++ '"' :: cs.take k).getLast? = false := by
        rw [List.getLast?_append_cons, List.getLast?_cons, getLast?_of_literalLength? length]
        exact (by decide : isNameChar '"' = false)
      have part : Part (cs.drop k) (p ++ '"' :: cs) := by
        have := Part.of_append_right (y := cs.drop k) (.inl close)
        rwa [List.append_assoc, List.cons_append, List.take_append_drop] at this
      refine ih _ ?_ (fun escaped => breaks (escaped.trans part.isInfix))
        (fun n stands => words n (stands.of_part part)) hrest apart.right_of_append.of_cons mem rfl
      simp
      omega
  · have whole : inlineLiterals (dataLiterals data) t = inlineNames data none (pointed none t) :=
      outsideLiterals_of_plain rfl quote
    rw [whole] at h
    exact stretch (.refl t) n (standsIn_of_mem_lexes h apart mem)

end Inlining

end Haulage
