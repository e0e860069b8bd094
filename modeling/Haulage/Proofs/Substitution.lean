/-
# Inlining as text is inlining as a tree

`inlineLiterals` searches a text for the names of variables and puts literals in their place.  It
knows nothing of tokens, and the lexer knows nothing of words.  Still the two agree: a text that is
cut into lexemes becomes a text that is cut into these lexemes with the literals' own in place of
the names (`lexes_inlineLiterals`).  So what parses still does, to the expression with data in place
of variables (`parsed_inlineLiterals`).

Three kinds of text are not what they seem to the search, and are left out.  Behind a point an
exponent looks like a name (`PointsApart`).  A comma between two digits becomes a point
(`CommasApart`).  A backslash takes a quote with it.  And where a function is called by the name of
a variable, a literal would stand in front of its arguments; `exists_infix_of_mem_calls` says how
that looks in the text.
-/
import Haulage.Proofs.Formula.Inlining
import Haulage.Proofs.Formula.Parsing
import Haulage.Proofs.Formula.Stretch
import Haulage.Substitution

namespace Haulage

open Lexer (Lexes Spells)

/-! ## 1. The search for names -/

/-- Is the text a letter of ASCII with any characters of words behind it? -/
def IsName (n : Text) : Prop :=
  ∃ c cs, n = c :: cs ∧ c.isAlpha = true ∧ ∀ d ∈ cs, isNameChar d = true

theorem isNameStart_of_isAlpha {c : Char} (h : c.isAlpha = true) : isNameStart c = true := by
  obtain ⟨r, mem, -, high⟩ := exists_range_of_inRanges (inRanges_of_isAlpha h)
  have bound : ∀ r ∈ asciiLetterRanges, r.2 < 128 := by decide
  have small : c.toNat < 128 := Nat.lt_of_le_of_lt high (bound r mem)
  simp [isNameStart, isLetter_of_ascii small, h]

theorem isNameChar_of_isAlpha {c : Char} (h : c.isAlpha = true) : isNameChar c = true :=
  isNameChar_of_isNameStart (isNameStart_of_isAlpha h)

theorem IsName.all {n : Text} (h : IsName n) : ∀ d ∈ n, isNameChar d = true := by
  obtain ⟨c, cs, rfl, alpha, all⟩ := h
  exact List.forall_mem_cons.mpr ⟨isNameChar_of_isAlpha alpha, all⟩

/-- A name stands at the start of a text only where no word goes on, and the text starts with its
first letter. -/
theorem standsAt_eq_false {n : Text} (name : IsName n) {before : Option Char} {c : Char}
    (h : c.isAlpha = false ∨ inWord before = true) (cs : Text) :
    standsAt n before (c :: cs) = false := by
  obtain ⟨d, ds, rfl, alpha, -⟩ := name
  rw [standsAt, Bool.and_assoc, Bool.and_eq_false_iff]
  by_cases first : d = c
  · subst first
    refine .inr (Bool.and_eq_false_iff.mpr (.inl ?_))
    have inside := h.resolve_left (by simp [alpha])
    rw [List.head?_cons, isBoundary, inside, inWord_some, isNameChar_of_isAlpha alpha]
    rfl
  · exact .inl (by simp [List.isPrefixOf, first])

/-- In front of a word exactly the word stands. -/
theorem standsAt_word {n w rest : Text} (name : IsName n) (word : ∀ d ∈ w, isNameChar d = true)
    {before : Option Char} (outside : inWord before = false) (stop : inWord rest.head? = false) :
    standsAt n before (w ++ rest) = (n == w) := by
  have letters := name.all
  obtain ⟨c, cs, rfl, -, -⟩ := name
  have last : inWord (c :: cs).getLast? = true := by
    rw [List.getLast?_eq_some_getLast (List.cons_ne_nil c cs), inWord_some]
    exact letters _ (List.getLast_mem _)
  have first : inWord (some c) = true := letters c (.head cs)
  by_cases same : c :: cs = w
  · subst same
    simp [standsAt, isBoundary, outside, stop, last, first]
  · rw [beq_eq_false_iff_ne.mpr same, Bool.eq_false_iff]
    intro stands
    simp only [standsAt, Bool.and_eq_true, List.isPrefixOf_iff_prefix] at stands
    obtain ⟨⟨⟨t, whole⟩, -⟩, behind⟩ := stands
    rcases List.append_eq_append_iff.mp whole with ⟨a, rfl, rfl⟩ | ⟨a, split, rfl⟩
    · -- the word goes on behind the name
      cases a with
      | nil => exact same (by simp)
      | cons d a =>
        have inside : inWord (some d) = true := word d (by simp)
        simp [isBoundary, last, inside] at behind
    · -- the name would go on behind the word
      cases a with
      | nil => exact same (by simpa using split)
      | cons d a =>
        have inside : isNameChar d = true := letters d (by simp [split])
        simp [inside] at stop

/-- The first entry under a name is the first one also when longer names go before. -/
theorem find?_longestFirst {literals : List (Text × Text)} {n : Text} (nonempty : n ≠ []) :
    (longestFirst literals).find? (fun e => e.1 == n) = literals.find? fun e => e.1 == n := by
  have kept : (literals.filter fun e => !e.1.isEmpty).filter (fun e => e.1 == n) =
      literals.filter fun e => e.1 == n := by
    rw [List.filter_filter]
    refine List.filter_congr fun e _ => ?_
    by_cases same : e.1 = n
    · simp [same, nonempty]
    · simp [same]
  have trans (a b c : Text × Text) : decide (b.1.length ≤ a.1.length) = true →
      decide (c.1.length ≤ b.1.length) = true → decide (c.1.length ≤ a.1.length) = true := by
    simp only [decide_eq_true_eq]
    omega
  have total (a b : Text × Text) :
      (decide (b.1.length ≤ a.1.length) || decide (a.1.length ≤ b.1.length)) = true := by
    simp only [Bool.or_eq_true, decide_eq_true_eq]
    omega
  -- entries of one name are in order among themselves, so the sort keeps them as they are
  have ordered : (literals.filter fun e => e.1 == n).Pairwise
      fun a b => decide (b.1.length ≤ a.1.length) = true :=
    List.pairwise_of_forall_mem_list fun a ha b hb => by
      simp only [List.mem_filter, beq_iff_eq] at ha hb
      simp [ha.2, hb.2]
  have sublist : (literals.filter fun e => e.1 == n).Sublist (longestFirst literals) :=
    List.sublist_mergeSort trans total ordered (kept ▸ List.filter_sublist)
  have same : (literals.filter fun e => e.1 == n) =
      (longestFirst literals).filter fun e => e.1 == n := by
    have inside := sublist.filter fun e => e.1 == n
    rw [List.filter_filter] at inside
    simp only [Bool.and_self] at inside
    refine inside.eq_of_length ?_
    rw [← kept]
    exact ((List.mergeSort_perm _ _).filter _).length_eq.symm
  rw [← List.head?_filter, ← List.head?_filter, same]

theorem find?_dataLiterals (data : List (Text × Datum)) (n : Text) :
    (dataLiterals data).find? (fun e => e.1 == n) =
      (data.lookup n).map fun d => (n, d.literal) := by
  induction data with
  | nil => rfl
  | cons entry data ih =>
    obtain ⟨m, d⟩ := entry
    have step : dataLiterals ((m, d) :: data) = (m, d.literal) :: dataLiterals data := rfl
    by_cases same : n = m
    · subst same
      simp [step]
    · have other : (m == n) = false := beq_eq_false_iff_ne.mpr (Ne.symm same)
      have other' : (n == m) = false := beq_eq_false_iff_ne.mpr same
      rw [step, List.find?_cons, List.lookup_cons, other']
      simp only [other]
      exact ih

section Names

variable {data : List (Text × Datum)} (names : ∀ entry ∈ data, IsName entry.1)

include names

theorem isName_of_mem_longestFirst {e : Text × Text}
    (h : e ∈ longestFirst (dataLiterals data)) : IsName e.1 := by
  have mem := List.mem_of_mem_filter (List.mem_mergeSort.mp h)
  obtain ⟨entry, hentry, rfl⟩ := List.mem_map.mp mem
  exact names entry hentry

/-- The search finds nothing inside a word, nor at what is no letter of ASCII. -/
theorem namesIn_eq_none {before : Option Char} {c : Char}
    (h : c.isAlpha = false ∨ inWord before = true) (cs : Text) :
    namesIn (longestFirst (dataLiterals data)) before c cs = none := by
  rw [namesIn, Option.map_eq_none_iff, List.find?_eq_none]
  intro e he
  have := standsAt_eq_false (isName_of_mem_longestFirst names he) h cs
  simpa using this

/-- **At a word the search finds the datum of that name.** -/
theorem namesIn_word {c : Char} {w rest : Text} (word : ∀ d ∈ c :: w, isNameChar d = true)
    {before : Option Char} (outside : inWord before = false) (stop : inWord rest.head? = false) :
    namesIn (longestFirst (dataLiterals data)) before c (w ++ rest) =
      (data.lookup (c :: w)).map fun d => ⟨w.length, d.literal⟩ := by
  have places : (longestFirst (dataLiterals data)).find?
      (fun e => standsAt e.1 before (c :: (w ++ rest))) =
        (longestFirst (dataLiterals data)).find? fun e => e.1 == c :: w :=
    List.find?_congr fun e he =>
      standsAt_word (isName_of_mem_longestFirst names he) word outside stop
  have found := find?_dataLiterals data (c :: w)
  rw [← find?_longestFirst (List.cons_ne_nil c w), ← places] at found
  rw [namesIn, found, Option.map_map]
  rfl

end Names

/-! ## 2. The search in a stretch -/

theorem isAlpha_eq_false {c : Char} (h : isNameChar c = false) : c.isAlpha = false :=
  Bool.eq_false_iff.mpr fun alpha => Bool.eq_false_iff.mp h (isNameChar_of_isAlpha alpha)

/-- No point of the text stands directly in front of a letter or an underscore. -/
def PointsApart (s : Text) : Prop := ∀ c, ['.', c] <:+: s → isNameStart c = false

theorem PointsApart.of_infix {s x : Text} (h : PointsApart s) (part : x <:+: s) : PointsApart x :=
  fun c found => h c (found.trans part)

/-- What a stretch behind a character becomes. -/
def inlineNames (data : List (Text × Datum)) (before : Option Char) (x : Text) : Text :=
  ((namesIn (longestFirst (dataLiterals data))).piecesFrom before 0 x).flatMap Piece.text

section Stretches

variable {data : List (Text × Datum)} (names : ∀ entry ∈ data, IsName entry.1)

theorem inlineNames_append_of_quiet {before : Option Char} {x rest : Text}
    (quiet : Quiet (namesIn (longestFirst (dataLiterals data))) before x rest) :
    inlineNames data before (x ++ rest) = x ++ inlineNames data (lastOr before x) rest := by
  rw [inlineNames, Finder.piecesFrom_append_of_quiet quiet, List.flatMap_append,
    flatMap_text_map_kept]
  rfl

include names

theorem quiet_of_not_alpha {x : Text} (other : ∀ c ∈ x, c.isAlpha = false) (before : Option Char)
    (rest : Text) : Quiet (namesIn (longestFirst (dataLiterals data))) before x rest := by
  induction x generalizing before with
  | nil => trivial
  | cons c x ih =>
    obtain ⟨first, more⟩ := List.forall_mem_cons.mp other
    exact ⟨namesIn_eq_none names (.inl first) _, ih more _⟩

theorem quiet_inside_word {x : Text} (word : ∀ c ∈ x, isNameChar c = true) {before : Option Char}
    (inside : inWord before = true) (rest : Text) :
    Quiet (namesIn (longestFirst (dataLiterals data))) before x rest := by
  induction x generalizing before with
  | nil => trivial
  | cons c x ih =>
    obtain ⟨first, more⟩ := List.forall_mem_cons.mp word
    exact ⟨namesIn_eq_none names (.inr inside) _, ih more first⟩

/-- **A number holds no name**, as long as its exponent does not stand behind a point. -/
theorem quiet_of_number {sp more : Text} {x : Float} (h : Spells sp (.number x) more)
    (points : PointsApart sp) (before : Option Char) (rest : Text) :
    Quiet (namesIn (longestFirst (dataLiterals data))) before sp rest := by
  obtain ⟨front, ex, whole, all, hex⟩ := h.number_parts
  have starts : ∃ c cs, sp = c :: cs ∧ Lexer.startsNumber c (cs ++ more) = true := by
    cases h with
    | number starts => exact ⟨_, _, rfl, starts⟩
  have digits : ∀ c ∈ front, c.isAlpha = false := fun c mem => by
    have number := all c mem
    rw [Lexer.isNumberChar, Bool.or_eq_true, beq_iff_eq] at number
    rcases number with digit | rfl
    · exact isAlpha_of_isDigitLike digit
    · decide
  subst whole
  refine quiet_append.mpr ⟨quiet_of_not_alpha names digits _ _, ?_⟩
  rcases hex with rfl | hex
  · trivial
  obtain ⟨mark, sign, ds, rfl, hm, hs, -, hd⟩ := hex.parts
  have nameStart : isNameStart mark = true := by rcases hm with rfl | rfl <;> decide
  -- the mark stands behind a digit, so it does not start a word
  have inside : inWord (lastOr before front) = true := by
    rcases List.eq_nil_or_concat' front with rfl | ⟨front, d, rfl⟩
    · obtain ⟨c, cs, first, starts⟩ := starts
      obtain rfl : mark = c := (List.cons.inj first).1
      rw [Lexer.startsNumber_of_isNameStart nameStart] at starts
      rcases hm with rfl | rfl <;> exact absurd starts (by decide)
    · rw [lastOr_append, lastOr_cons, lastOr_nil, inWord_some]
      have number := all d (by simp)
      rw [Lexer.isNumberChar, Bool.or_eq_true, beq_iff_eq] at number
      rcases number with digit | rfl
      · exact isNameChar_of_isDigitLike digit
      · have infix' : ['.', mark] <:+: front ++ ['.'] ++ mark :: (sign ++ ds) :=
          ⟨front, sign ++ ds, by simp⟩
        simp [points mark infix'] at nameStart
  refine ⟨namesIn_eq_none names (.inr inside) _, quiet_of_not_alpha names (fun c mem => ?_) _ _⟩
  rcases List.mem_append.mp mem with mem | mem
  · have signs : ∀ d ∈ sign, d.isAlpha = false := by rcases hs with rfl | rfl | rfl <;> decide
    exact signs c mem
  · exact isAlpha_of_isDigitLike (hd c mem)

/-- What is neither a name nor a text holds no name. -/
theorem quiet_names_of_spells {sp more : Text} {l : Lexeme} (h : Spells sp l more)
    (points : PointsApart sp) (noName : ∀ n, l ≠ .name n)
    (noText : ∀ t, l ≠ .text t) (before : Option Char) (rest : Text) :
    Quiet (namesIn (longestFirst (dataLiterals data))) before sp rest := by
  have symbol {c : Char} (mem : c ∈ Lexer.symbolChars) : c.isAlpha = false :=
    isAlpha_eq_false (Lexer.class_of_mem_symbolChars mem).2.1
  cases h with
  | number starts span read => exact quiet_of_number names (.number starts span read) points _ _
  | name => exact absurd rfl (noName _)
  | text => exact absurd rfl (noText _)
  | pair pair =>
    obtain ⟨first, rfl⟩ := Lexer.mem_symbolChars_of_ofPair? pair
    exact quiet_of_not_alpha names (by simp [symbol first]) _ _
  | single single =>
    have first := symbol (Lexer.mem_symbolChars_of_ofChar? single)
    exact quiet_of_not_alpha names (by simpa using first) _ _

omit names in
/-- Between a spelling and what may follow it no word goes on. -/
theorem inWord_of_spells {sp rest : Text} {l : Lexeme} (h : Spells sp l rest)
    (ends : Lexer.Ends l rest) (noText : ∀ t, l ≠ .text t) (before : Option Char) :
    inWord (lastOr before sp) = false ∨ inWord rest.head? = false := by
  cases h with
  | number =>
    right
    cases rest with
    | nil => rfl
    | cons d rest => exact (ends d rfl).1
  | name _ _ _ stop => exact .inr stop
  | text => exact absurd rfl (noText _)
  | pair pair =>
    obtain ⟨-, rfl⟩ := Lexer.mem_symbolChars_of_ofPair? pair
    left
    rw [lastOr_cons, lastOr_cons, lastOr_nil]
    decide
  | single single =>
    exact .inl (Lexer.class_of_mem_symbolChars (Lexer.mem_symbolChars_of_ofChar? single)).2.1

/-- **At a name its datum is put in its place.** -/
theorem inlineNames_word {c : Char} {cs rest : Text} (word : ∀ d ∈ c :: cs, isNameChar d = true)
    {before : Option Char} (outside : inWord before = false) (stop : inWord rest.head? = false) :
    inlineNames data before (c :: cs ++ rest) =
      ((data.lookup (c :: cs)).map Datum.literal).getD (c :: cs) ++
        inlineNames data (lastOr before (c :: cs)) rest := by
  have place := namesIn_word names word outside stop
  cases found : data.lookup (c :: cs) with
  | none =>
    rw [found] at place
    obtain ⟨first, more⟩ := List.forall_mem_cons.mp word
    have inside : inWord (some c) = true := first
    exact inlineNames_append_of_quiet ⟨place, quiet_inside_word names more inside _⟩
  | some d =>
    rw [found] at place
    rw [inlineNames, Finder.piecesFrom_of_found place]
    rfl

/-- **A stretch is cut into its lexemes**, with those of data in place of names. -/
theorem lexes_inlineNames (finite : ∀ entry ∈ data, entry.2.isFinite = true) {x : Text}
    {ls : List Lexeme} (h : Lexes x ls) (plain : '"' ∉ x)
    (points : PointsApart x) (apart : ls.IsChain Lexer.Apart)
    (apart' : (ls.flatMap (Lexeme.inline data)).IsChain Lexer.Apart) {before : Option Char}
    (start : inWord before = false ∨ inWord x.head? = false) :
    Lexes (inlineNames data before x) (ls.flatMap (Lexeme.inline data)) := by
  induction h generalizing before with
  | nil => exact .nil
  | @blank c cs ls blank more ih =>
    have name := isNameChar_of_isBlank blank
    have other : ∀ d ∈ [c], d.isAlpha = false := by simpa using isAlpha_eq_false name
    have step := inlineNames_append_of_quiet (quiet_of_not_alpha names other before cs)
    rw [List.singleton_append] at step
    rw [step]
    exact .blank blank (ih (mt (List.mem_cons_of_mem c) plain)
      (points.of_infix (List.suffix_cons c cs).isInfix) apart apart' (.inl name))
  | @token sp rest l ls spells more ih =>
    simp only [List.mem_append, not_or] at plain
    have noText : ∀ t, l ≠ .text t := by
      rintro t rfl
      cases spells
      exact plain.1 List.mem_cons_self
    have ends : Lexer.Ends l rest := more.ends fun l' next => apart.rel_head? next
    rw [List.flatMap_cons] at apart' ⊢
    have rest' := ih plain.2 (points.of_infix (List.suffix_append sp rest).isInfix) apart.of_cons
      apart'.right_of_append (inWord_of_spells spells ends noText before)
    by_cases isName : ∃ n, l = .name n
    · obtain ⟨n, rfl⟩ := isName
      cases spells with
      | @name c cs _ first digit inside stop =>
        have word : ∀ d ∈ c :: cs, isNameChar d = true :=
          List.forall_mem_cons.mpr ⟨isNameChar_of_isNameStart first, inside⟩
        have outside : inWord before = false := start.resolve_right (by
          simp [isNameChar_of_isNameStart first])
        rw [inlineNames_word names word outside stop]
        refine Lexes.append ?_ rest' apart'
        rw [Lexeme.inline]
        cases found : data.lookup (c :: cs) with
        | none => exact (Spells.name first digit inside stop).lexes
        | some d => exact d.lexes_literal (finite _ (mem_of_lookup found))
    · have noName := not_exists.mp isName
      have quiet := quiet_names_of_spells names spells
        (points.of_infix (List.prefix_append sp rest).isInfix) noName noText before rest
      have same : l.inline data = [l] := by
        cases l with
        | name n => exact absurd rfl (noName n)
        | _ => rfl
      rw [inlineNames_append_of_quiet quiet]
      refine Lexes.append ?_ rest' apart'
      rw [same]
      exact spells.lexes

end Stretches

/-! ## 3. The whole of a formula -/

/-- No comma of the text stands directly between two digits. -/
def CommasApart (s : Text) : Prop :=
  ∀ d e, [d, ',', e] <:+: s → ¬(isDecimalDigit d = true ∧ isDecimalDigit e = true)

theorem CommasApart.of_infix {s x : Text} (h : CommasApart s) (part : x <:+: s) : CommasApart x :=
  fun d e found => h d e (found.trans part)

/-- Where no comma stands between two digits, none becomes a point. -/
theorem quiet_decimalCommas {before : Option Char} {x : Text}
    (commas : CommasApart (before.toList ++ x)) : Quiet decimalCommas before x [] := by
  induction x generalizing before with
  | nil => trivial
  | cons c x ih =>
    refine ⟨?_, ih (commas.of_infix (List.suffix_append _ _).isInfix)⟩
    rw [List.append_nil, decimalCommas, if_neg]
    simp only [Bool.and_eq_true, beq_iff_eq, Option.any_eq_true]
    rintro ⟨⟨rfl, d, rfl, digit⟩, e, next, digit'⟩
    obtain ⟨x, rfl⟩ := List.head?_eq_some_iff.mp next
    exact commas d e ⟨[], x, rfl⟩ ⟨digit, digit'⟩

theorem replaceAll_decimalCommas {x : Text} (commas : CommasApart x) :
    decimalCommas.replaceAll x = x := by
  have quiet : Quiet decimalCommas none x [] := quiet_decimalCommas commas
  rw [Finder.replaceAll, Finder.pieces_of_quiet quiet, flatMap_text_map_kept]

section Whole

variable {data : List (Text × Datum)} (names : ∀ entry ∈ data, IsName entry.1)
  (finite : ∀ entry ∈ data, entry.2.isFinite = true)

include names finite

/-- **A formula is cut into its lexemes**, with those of data in place of names. -/
theorem lexes_inlineLiterals {s : Text} {ls : List Lexeme} (h : Stretched s ls)
    (commas : CommasApart s) (points : PointsApart s) (apart : ls.IsChain Lexer.Apart)
    (apart' : (ls.flatMap (Lexeme.inline data)).IsChain Lexer.Apart) :
    Lexes (inlineLiterals (dataLiterals data) s) (ls.flatMap (Lexeme.inline data)) := by
  have stretch {x : Text} (commas : CommasApart x) :
      (namesIn (longestFirst (dataLiterals data))).replaceAll (decimalCommas.replaceAll x) =
        inlineNames data none x := by
    rw [replaceAll_decimalCommas commas]
    rfl
  rw [inlineLiterals]
  induction h with
  | plain lexes plain =>
    rw [outsideLiterals_of_plain rfl plain, stretch commas]
    exact lexes_inlineNames names finite lexes plain points apart apart' (.inl inWord_none)
  | @literal x body rest front back lexes plain quote escape spells more ih =>
    have first : x <:+: x ++ ('"' :: (body ++ ['"']) ++ rest) := (List.prefix_append _ _).isInfix
    have last : rest <:+: x ++ ('"' :: (body ++ ['"']) ++ rest) :=
      ((List.suffix_append _ _).trans (List.suffix_append _ _)).isInfix
    rw [List.flatMap_append, List.flatMap_cons] at apart' ⊢
    rw [outsideLiterals_append_literal rfl plain quote escape,
      stretch (commas.of_infix first)]
    have front' := lexes_inlineNames names finite lexes plain (points.of_infix first)
      apart.left_of_append apart'.left_of_append (.inl inWord_none)
    have back' := ih (commas.of_infix last) (points.of_infix last) apart.right_of_append.of_cons
      apart'.right_of_append.right_of_append
    exact front'.append (spells.lexes.append back' apart'.right_of_append) apart'

end Whole

/-! ## 4. Calls -/

theorem infix_behind {α : Type} (x : List α) (a : α) (y : List α) : y <:+: x ++ a :: y :=
  ⟨x ++ [a], [], by simp⟩

mutual

/-- A call is written as its name and an opening parenthesis behind it. -/
theorem Form.infix_of_mem_calls : (f : Form) → ∀ call ∈ f.calls,
    [.name call.1, .symbol .openParen] <:+: f.lexemes
  | .number _, _, mem | .text _, _, mem | .name _, _, mem => by cases mem
  | .paren f, call, mem =>
    (f.infix_of_mem_calls call mem).trans ⟨[.symbol .openParen], [.symbol .closeParen], rfl⟩
  | .signed _ f, call, mem => (f.infix_of_mem_calls call mem).trans (List.suffix_cons _ _).isInfix
  | .binary _ l r, call, mem => by
    rcases List.mem_append.mp mem with mem | mem
    · exact (l.infix_of_mem_calls call mem).trans (List.prefix_append _ _).isInfix
    · exact (r.infix_of_mem_calls call mem).trans
        (infix_behind _ _ _)
  | .choice c a b, call, mem => by
    have later : a.lexemes ++ .symbol .colon :: b.lexemes <:+: (Form.choice c a b).lexemes :=
      (infix_behind _ _ _)
    rcases List.mem_append.mp mem with mem | mem
    · exact (c.infix_of_mem_calls call mem).trans (List.prefix_append _ _).isInfix
    rcases List.mem_append.mp mem with mem | mem
    · exact ((a.infix_of_mem_calls call mem).trans (List.prefix_append _ _).isInfix).trans later
    · exact ((b.infix_of_mem_calls call mem).trans
        (infix_behind _ _ _)).trans later
  | .emptyCall n, call, mem => by
    obtain rfl := List.mem_singleton.mp mem
    exact ⟨[], [.symbol .closeParen], rfl⟩
  | .call n as, call, mem => by
    rcases List.mem_cons.mp mem with rfl | mem
    · exact ⟨[], as.lexemes ++ [.symbol .closeParen], rfl⟩
    · exact (as.infix_of_mem_calls call mem).trans
        ⟨[.name n, .symbol .openParen], [.symbol .closeParen], by simp [Form.lexemes]⟩

theorem Arguments.infix_of_mem_calls : (as : Arguments) → ∀ call ∈ as.calls,
    [.name call.1, .symbol .openParen] <:+: as.lexemes
  | .last f, call, mem => f.infix_of_mem_calls call mem
  | .more f _ as, call, mem => by
    rcases List.mem_append.mp mem with mem | mem
    · exact (f.infix_of_mem_calls call mem).trans (List.prefix_append _ _).isInfix
    · exact (as.infix_of_mem_calls call mem).trans
        (infix_behind _ _ _)

end

/-- **What a text calls stands in it in front of an opening parenthesis**, with nothing but blanks
between the two. -/
theorem exists_infix_of_mem_calls {s : Text} {e : Expr} (read : parsed s = .ok e)
    {call : Text × List Expr} (mem : call ∈ e.calls) :
    ∃ bs, (∀ b ∈ bs, isBlank b = true) ∧ call.1 ++ (bs ++ ['(']) <:+: s := by
  obtain ⟨f, -, rfl, lexes⟩ := parsed_eq_ok_iff.mp read
  rw [f.calls_expr] at mem
  obtain ⟨call', mem', rfl⟩ := List.mem_map.mp mem
  obtain ⟨front, back, whole⟩ := f.infix_of_mem_calls call' mem'
  rw [← whole, List.append_assoc] at lexes
  obtain ⟨x, rest, rfl, -, lexes'⟩ := lexes.split
  obtain ⟨t, rest', rfl, name, lexes''⟩ := lexes'.uncons
  obtain ⟨t', y, rfl, symbol, -⟩ := lexes''.uncons
  obtain ⟨b1, sp, b2, rfl, -, blanks, spells⟩ := exists_spelling_of_lexes name
  obtain ⟨b3, b4, rfl, blanks', -⟩ :=
    exists_delimiter_of_lexes symbol (c := '(') (by decide) rfl
  obtain rfl := eq_of_spells_name spells
  refine ⟨b2 ++ b3, fun b mem => (List.mem_append.mp mem).elim (blanks b) (blanks' b), ?_⟩
  exact ⟨x ++ b1, b4 ++ y, by simp [callExprs]⟩

/-! ## 5. Expressions -/

/-- **Inlining as text is inlining as a tree.**  A formula that parses still does with its variables
inlined, to the expression with data in place of the variables; and this evaluates as the expression
does with the variables at hand, up to the sign of a zero. -/
theorem parsed_inlineLiterals {data : List (Text × Datum)} {s : Text} {e : Expr}
    (read : parsed s = .ok e) (escape : '\\' ∉ s) (commas : CommasApart s) (points : PointsApart s)
    (names : ∀ entry ∈ data, IsName entry.1) (finite : ∀ entry ∈ data, entry.2.isFinite = true)
    (free : ∀ call ∈ e.calls, data.lookup call.1 = none) :
    parsed (inlineLiterals (dataLiterals data) s) = .ok (e.inline data) ∧
      Agree ((e.inline data).evaluate []) (e.evaluate (bindingsOf data)) := by
  obtain ⟨f, wf, rfl, lexes⟩ := parsed_eq_ok_iff.mp read
  have free' : ∀ call ∈ f.calls, data.lookup call.1 = none := fun call mem =>
    free (callExprs call) (f.calls_expr ▸ List.mem_map_of_mem mem)
  have lexemes := f.lexemes_inline data free'
  refine ⟨parsed_eq_ok_iff.mpr ⟨f.inline data, f.wellFormed_inline data wf, f.expr_inline data, ?_⟩,
    f.expr.agree_evaluate_inline finite⟩
  rw [lexemes]
  exact lexes_inlineLiterals names finite (stretched_of_lexes lexes escape) commas points
    f.phrase.apart (lexemes ▸ (f.inline data).phrase.apart)

/-- A negative number keeps its sign to itself, and the name in a text literal stays. -/
theorem parsed_inlineLiterals_of_power :
    parsed (inlineLiterals (dataLiterals [(['X'], .number (-2)), (['Z'], .text ['a'])])
        "Z==\"X\" ? max(X,Y) : X^Y".toList) =
      .ok (.conditional (.binary .equal (.text ['a']) (.text ['X']))
        (.call "max".toList [.signed .minus (.number 2), .name ['Y']])
        (.binary .power (.signed .minus (.number 2)) (.name ['Y']))) := by
  have read : parsed "Z==\"X\" ? max(X,Y) : X^Y".toList =
      .ok (.conditional (.binary .equal (.name ['Z']) (.text ['X']))
        (.call "max".toList [.name ['X'], .name ['Y']])
        (.binary .power (.name ['X']) (.name ['Y']))) := by cbv
  have digits : ∀ d ∈ "Z==\"X\" ? max(X,Y) : X^Y".toList, isDecimalDigit d = false := by decide
  have commas : CommasApart "Z==\"X\" ? max(X,Y) : X^Y".toList := by
    rintro d e ⟨x, y, whole⟩ ⟨digit, -⟩
    have mem : d ∈ "Z==\"X\" ? max(X,Y) : X^Y".toList := by simp [← whole]
    simp [digits d mem] at digit
  have points : PointsApart "Z==\"X\" ? max(X,Y) : X^Y".toList := by
    rintro c ⟨x, y, whole⟩
    have mem : '.' ∈ "Z==\"X\" ? max(X,Y) : X^Y".toList := by simp [← whole]
    exact absurd mem (by decide)
  refine (parsed_inlineLiterals read (by decide) commas points (fun entry mem => ?_)
    (by decide +kernel) (by decide)).1
  rcases List.mem_pair.mp mem with rfl | rfl
  · exact ⟨'X', [], rfl, by decide, by simp⟩
  · exact ⟨'Z', [], rfl, by decide, by simp⟩

end Haulage
