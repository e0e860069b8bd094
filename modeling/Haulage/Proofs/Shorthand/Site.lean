/-
# Calls in written forms

The calls of a form are found where they are written.  `Cuts find s ps` says that a search cuts the
text `s` into the pieces `ps` wherever it stands in a formula; the pieces of a form are put together
from those of its parts.  A call by the name that is looked for is the one place where the search
finds something (`exists_call_of_lexes` names the parts of its text), and elsewhere it is quiet.
-/
import Haulage.Proofs.Shorthand.Head
import Haulage.Proofs.Shorthand.Grouping

namespace Haulage

open Lexer (Lexes Spells)

/-! ## 1. The calls of a form -/

mutual

/-- The calls in a form, with what stands between their parentheses. -/
def Form.calls : Form → List (Text × Option Arguments)
  | .number _ | .text _ | .name _ => []
  | .paren f => f.calls
  | .signed _ f => f.calls
  | .binary _ l r => l.calls ++ r.calls
  | .choice c a b => c.calls ++ (a.calls ++ b.calls)
  | .emptyCall n => [(n, none)]
  | .call n as => (n, some as) :: as.calls

/-- The calls in arguments. -/
def Arguments.calls : Arguments → List (Text × Option Arguments)
  | .last f => f.calls
  | .more f _ as => f.calls ++ as.calls

end

namespace Expr

mutual

/-- The calls in an expression, with their arguments. -/
def calls : Expr → List (Text × List Expr)
  | number _ | text _ | name _ => []
  | signed _ e => e.calls
  | binary _ l r => l.calls ++ r.calls
  | conditional c a b => c.calls ++ (a.calls ++ b.calls)
  | call n es => (n, es) :: callsIn es

/-- The calls in expressions. -/
def callsIn : List Expr → List (Text × List Expr)
  | [] => []
  | e :: es => e.calls ++ callsIn es

end

end Expr

/-- A call of a form as one of its expression. -/
def callExprs (call : Text × Option Arguments) : Text × List Expr :=
  (call.1, (call.2.map Arguments.exprs).getD [])

mutual

theorem Form.calls_expr : (f : Form) → f.expr.calls = f.calls.map callExprs
  | .number _ => rfl
  | .text _ => rfl
  | .name _ => rfl
  | .paren f => f.calls_expr
  | .signed _ f => f.calls_expr
  | .binary _ l r => by simp [Form.expr, Expr.calls, Form.calls, l.calls_expr, r.calls_expr]
  | .choice c a b => by
    simp [Form.expr, Expr.calls, Form.calls, c.calls_expr, a.calls_expr, b.calls_expr]
  | .emptyCall _ => rfl
  | .call n as => by
    simp [Form.expr, Expr.calls, Form.calls, as.callsIn_exprs, callExprs]

theorem Arguments.callsIn_exprs : (as : Arguments) → Expr.callsIn as.exprs = as.calls.map callExprs
  | .last f => by simp [Arguments.exprs, Expr.callsIn, Arguments.calls, f.calls_expr]
  | .more f _ as => by
    simp [Arguments.exprs, Expr.callsIn, Arguments.calls, f.calls_expr, as.callsIn_exprs]

end

/-- The lexemes between the parentheses of a call. -/
def Arguments.lexemes? : Option Arguments → List Lexeme
  | none => []
  | some as => as.lexemes

section NoHead

variable {name : Text}

theorem isChain_noHead_cons {ls : List Lexeme} (h : ls.IsChain (NoHead name)) (s : Symbol) :
    (Lexeme.symbol s :: ls).IsChain (NoHead name) :=
  h.cons fun _ _ => trivial

theorem isChain_noHead_join {x y : List Lexeme} (hx : x.IsChain (NoHead name))
    (hy : y.IsChain (NoHead name)) {s : Symbol} (other : s ≠ .openParen) :
    (x ++ .symbol s :: y).IsChain (NoHead name) := by
  refine List.isChain_append.mpr ⟨hx, isChain_noHead_cons hy s, fun l _ m hm => ?_⟩
  obtain rfl : .symbol s = m := by simpa using hm
  cases l <;> cases s <;> trivial

mutual

/-- A form without calls by a name has no head of one. -/
theorem Form.isChain_noHead : (f : Form) → (∀ call ∈ f.calls, ¬Named name call.1) →
    f.lexemes.IsChain (NoHead name)
  | .number _, _ => .singleton _
  | .text _, _ => .singleton _
  | .name _, _ => .singleton _
  | .paren f, free =>
    isChain_noHead_cons (isChain_noHead_join (f.isChain_noHead free) .nil (s := .closeParen) nofun) _
  | .signed _ f, free => isChain_noHead_cons (f.isChain_noHead free) _
  | .binary _ l r, free => by
    simp only [Form.calls, List.mem_append, or_imp, forall_and] at free
    exact isChain_noHead_join (l.isChain_noHead free.1) (r.isChain_noHead free.2) nofun
  | .choice c a b, free => by
    simp only [Form.calls, List.mem_append, or_imp, forall_and] at free
    exact isChain_noHead_join (c.isChain_noHead free.1)
      (isChain_noHead_join (a.isChain_noHead free.2.1) (b.isChain_noHead free.2.2)
        (s := .colon) nofun) (s := .question) nofun
  | .emptyCall n, free => by
    have other : ¬Named name n := free (n, none) (by simp [Form.calls])
    simpa [Form.lexemes, NoHead] using other
  | .call n as, free => by
    simp only [Form.calls, List.forall_mem_cons] at free
    have inside := isChain_noHead_join (as.isChain_noHead free.2) .nil
      (s := .closeParen) nofun
    refine (isChain_noHead_cons inside .openParen).cons fun l hl => ?_
    obtain rfl : .symbol .openParen = l := by simpa using hl
    exact free.1

theorem Arguments.isChain_noHead : (as : Arguments) → (∀ call ∈ as.calls, ¬Named name call.1) →
    as.lexemes.IsChain (NoHead name)
  | .last f, free => f.isChain_noHead free
  | .more f s as, free => by
    simp only [Arguments.calls, List.mem_append, or_imp, forall_and] at free
    exact isChain_noHead_join (f.isChain_noHead free.1) (as.isChain_noHead free.2)
      (by cases s <;> nofun)

end

end NoHead

/-! ## 2. The text of a call -/

/-- How a call is written: the name, blanks, and the body between parentheses, with blanks around it
all. -/
structure CallText (n : Text) where
  front : Text
  middle : Text
  body : Text
  back : Text
  blankFront : ∀ b ∈ front, isBlank b = true
  blankMiddle : ∀ b ∈ middle, isBlank b = true
  blankBack : ∀ b ∈ back, isBlank b = true
  spells : Spells n (.name n) []

/-- The text of the call. -/
def CallText.text {n : Text} (call : CallText n) : Text :=
  call.front ++ (n ++ (call.middle ++ ['('] ++ (call.body ++ ')' :: call.back)))

theorem word_of_spells {n rest : Text} (h : Spells n (.name n) rest) :
    ∃ c cs, n = c :: cs ∧ ∀ d ∈ n, isNameChar d = true := by
  cases h with
  | name start _ inside =>
    exact ⟨_, _, rfl, List.forall_mem_cons.mpr ⟨isNameChar_of_isNameStart start, inside⟩⟩

theorem eq_of_spells_name {sp n rest : Text} (h : Spells sp (.name n) rest) : sp = n := by
  cases h
  rfl

/-- The name that a call is written with. -/
theorem CallText.word {n : Text} (call : CallText n) :
    ∃ c cs, n = c :: cs ∧ ∀ d ∈ n, isNameChar d = true := word_of_spells call.spells

/-- A call with another text between its parentheses. -/
theorem CallText.lexes_with {n : Text} (call : CallText n) {body : Text} {ls : List Lexeme}
    (h : Lexes body ls)
    (apart : (Lexeme.name n :: .symbol .openParen :: (ls ++ [.symbol .closeParen])).IsChain
      Lexer.Apart) :
    Lexes (call.front ++ (n ++ (call.middle ++ ['('] ++ (body ++ ')' :: call.back))))
      (.name n :: .symbol .openParen :: (ls ++ [.symbol .closeParen])) := by
  have opens : Lexes (call.middle ++ ['(']) [.symbol .openParen] :=
    .blanks_append (.token (.single rfl (by simp)) .nil) call.blankMiddle
  have closes : Lexes (')' :: call.back) [.symbol .closeParen] :=
    @Lexer.lexes_of_ofChar? ')' .closeParen [] call.back rfl nofun call.blankBack
  have name : Lexes n [.name n] := call.spells.lexes
  have inside := h.append closes apart.of_cons.of_cons
  exact .blanks_append (name.append (opens.append inside apart.of_cons) apart) call.blankFront

theorem exists_call_of_lexes {s n : Text} {inside : List Lexeme} (apart : inside.IsChain Lexer.Apart)
    (h : Lexes s (.name n :: .symbol .openParen :: (inside ++ [.symbol .closeParen]))) :
    ∃ call : CallText n, s = call.text ∧ Lexes call.body inside := by
  obtain ⟨t, rest, rfl, ht, hrest⟩ := h.uncons
  obtain ⟨t', rest', rfl, ht', hrest'⟩ := hrest.uncons
  obtain ⟨x, t'', rfl, hx, ht''⟩ := hrest'.split
  obtain ⟨b1, sp, b2, rfl, h1, h2, spells⟩ := exists_spelling_of_lexes ht
  obtain rfl := eq_of_spells_name spells
  obtain ⟨b3, b4, rfl, h3, h4⟩ := exists_delimiter_of_lexes ht' (c := '(') (by decide) rfl
  obtain ⟨b5, b6, rfl, h5, h6⟩ := exists_delimiter_of_lexes ht'' (c := ')') (by decide) rfl
  exact ⟨{
    front := b1
    middle := b2 ++ b3
    body := b4 ++ (x ++ b5)
    back := b6
    blankFront := h1
    blankMiddle := fun b hb => (List.mem_append.mp hb).elim (h2 b) (h3 b)
    blankBack := h6
    spells := spells.truncate (x := []) },
    by simp [CallText.text], (hx.append_blanks apart h5).blanks_append h4⟩

/-! ## 3. Texts cut into pieces -/

/-- A finder that finds nothing where no head of a call by the name begins. -/
def Keyed {α : Type} (name : Text) (find : Finder α) : Prop :=
  ∀ before c cs, headNamed name before c cs = none → find before c cs = none

theorem keyed_headsWithBodies (name : Text) : Keyed name (headsWithBodies (headNamed name)) :=
  fun before c cs none => by rw [headsWithBodies, none, Option.map_none]

theorem keyed_spellableCalls (name : Text) (spell : List Text → Option Text) :
    Keyed name (spellableCalls name spell) := fun before c cs none => by
  rw [spellableCalls, none]

theorem keyed_emptyCalls (name : Text) : Keyed name (emptyCalls name) := fun before c cs none => by
  rw [emptyCalls, none]

/-- Wherever the text stands in a formula, the search cuts it into the pieces. -/
def Cuts {α : Type} (find : Finder α) (s : Text) (ps : List (Piece α)) : Prop :=
  ∀ before rest, inWord before = false → Follows rest →
    find.piecesFrom before 0 (s ++ rest) = ps ++ find.piecesFrom (lastOr before s) 0 rest

/-- No character of the text belongs to a word. -/
def Wordless (t : Text) : Prop := ∀ c ∈ t, isNameChar c = false

instance (t : Text) : Decidable (Wordless t) := inferInstanceAs (Decidable (∀ c ∈ t, _))

theorem wordless_of_blanks {bs : Text} (blanks : ∀ b ∈ bs, isBlank b = true) : Wordless bs :=
  fun b hb => isNameChar_of_isBlank (blanks b hb)

theorem Wordless.append {x y : Text} (hx : Wordless x) (hy : Wordless y) : Wordless (x ++ y) :=
  fun c hc => (List.mem_append.mp hc).elim (hx c) (hy c)

theorem Wordless.inWord_lastOr {t : Text} (h : Wordless t) {before : Option Char}
    (outside : inWord before = false) : inWord (lastOr before t) = false := by
  unfold lastOr
  cases last : t.getLast? with
  | none => exact outside
  | some c => exact h c (List.mem_of_getLast? last)

theorem Wordless.inWord_head? {t rest : Text} (h : Wordless t) (nonempty : t ≠ []) :
    inWord (t ++ rest).head? = false := by
  obtain ⟨c, t, rfl⟩ := List.exists_cons_of_ne_nil nonempty
  exact h c (by simp)

theorem Wordless.inWord_lastOr_of_ne_nil {t : Text} (h : Wordless t) (nonempty : t ≠ [])
    (before : Option Char) : inWord (lastOr before t) = false := by
  unfold lastOr
  cases last : t.getLast? with
  | none => exact absurd (List.getLast?_eq_none_iff.mp last) nonempty
  | some c => exact h c (List.mem_of_getLast? last)

/-- What a symbol is written with belongs to no word. -/
theorem wordless_of_lexes {t : Text} {s : Symbol} (h : Lexes t [.symbol s]) :
    Wordless t ∧ t ≠ [] := by
  obtain ⟨front, sp, back, rfl, hfront, hback, spells⟩ := exists_spelling_of_lexes h
  refine ⟨((wordless_of_blanks hfront).append fun c hc => ?_).append (wordless_of_blanks hback), ?_⟩
  · cases spells with
    | pair pair =>
      obtain ⟨first, rfl⟩ := Lexer.mem_symbolChars_of_ofPair? pair
      rcases List.mem_cons.mp hc with rfl | hc
      · exact (Lexer.class_of_mem_symbolChars first).2.1
      · obtain rfl := List.mem_singleton.mp hc
        decide
    | single single =>
      obtain rfl := List.mem_singleton.mp hc
      exact (Lexer.class_of_mem_symbolChars (Lexer.mem_symbolChars_of_ofChar? single)).2.1
  · simp [spells.ne_nil]

/-- A formula ends in front of a symbol, unless that is an opening parenthesis. -/
theorem follows_of_lexes {t rest : Text} {s : Symbol} (h : Lexes t [.symbol s])
    (other : s ≠ .openParen) : Follows (t ++ rest) :=
  ⟨(wordless_of_lexes h).1.inWord_head? (wordless_of_lexes h).2,
    shut_of_lexes h (by simpa using other) nofun⟩

namespace Cuts

variable {α : Type} {name : Text} {find : Finder α} {before : Option Char} {s x y t rest : Text}
  {ps qs : List (Piece α)}

theorem quiet_of_wordless (sn : ShorthandName name) (keyed : Keyed name find) (h : Wordless t) :
    Quiet find before t rest :=
  (quiet_of_no_letters sn fun c hc letter => by
    have := isNameChar_of_mem_latinLetters letter
    simp [h c hc] at this).mono keyed

/-- A text without calls by the name stays as it is. -/
theorem of_quiet (sn : ShorthandName name) (keyed : Keyed name find) {ls : List Lexeme}
    (h : Lexes s ls) (plain : '"' ∉ s) (free : ls.IsChain (NoHead name)) :
    Cuts find s (s.map .kept) := fun before _ _ follows =>
  Finder.piecesFrom_append_of_quiet ((quiet_of_lexes sn h plain free follows before).mono keyed)

theorem join (sn : ShorthandName name) (keyed : Keyed name find) {symbol : Symbol}
    (hx : Cuts find x ps) (ht : Lexes t [.symbol symbol]) (other : symbol ≠ .openParen)
    (hy : Cuts find y qs) : Cuts find (x ++ (t ++ y)) (ps ++ (t.map .kept ++ qs)) := by
  intro before rest outside follows
  obtain ⟨wordless, nonempty⟩ := wordless_of_lexes ht
  simp only [List.append_assoc]
  rw [hx before _ outside (follows_of_lexes ht other),
    Finder.piecesFrom_append_of_quiet (quiet_of_wordless sn keyed wordless),
    hy _ rest (wordless.inWord_lastOr_of_ne_nil nonempty _) follows]
  simp only [lastOr_append]

/-- Behind a text without names. -/
theorem wordless_append (sn : ShorthandName name) (keyed : Keyed name find) (ht : Wordless t)
    (hy : Cuts find y qs) : Cuts find (t ++ y) (t.map .kept ++ qs) := by
  intro before rest outside follows
  rw [List.append_assoc,
    Finder.piecesFrom_append_of_quiet (quiet_of_wordless sn keyed ht),
    hy _ rest (ht.inWord_lastOr outside) follows]
  simp only [List.append_assoc, lastOr_append]

/-- In front of a text without names that a formula ends at. -/
theorem append_wordless (sn : ShorthandName name) (keyed : Keyed name find) (hx : Cuts find x ps)
    (ht : Wordless t) (follows : ∀ rest, Follows rest → Follows (t ++ rest)) :
    Cuts find (x ++ t) (ps ++ t.map .kept) := by
  intro before rest outside follows'
  rw [List.append_assoc, hx before _ outside (follows rest follows'),
    Finder.piecesFrom_append_of_quiet (quiet_of_wordless sn keyed ht)]
  simp only [List.append_assoc, lastOr_append]

end Cuts

/-! ## 4. Calls cut into pieces -/

namespace CallText

variable {n : Text} (call : CallText n)

theorem follows (rest : Text) : Follows (')' :: call.back ++ rest) :=
  .cons (by decide) (by decide) (by decide) _

theorem wordless_open : Wordless (call.middle ++ ['(']) :=
  (wordless_of_blanks call.blankMiddle).append (by decide)

theorem wordless_close : Wordless (')' :: call.back) :=
  Wordless.append (x := [')']) (by decide) (wordless_of_blanks call.blankBack)

/-- The head of the call is found at its name. -/
theorem headNamed_eq_some {name : Text} (sn : ShorthandName name) (named : Named name n) {c : Char}
    {cs : Text} (first : n = c :: cs) {before : Option Char} (outside : inWord before = false)
    (rest : Text) :
    headNamed name before c (cs ++ (call.middle ++ ['('] ++ rest)) =
      some ⟨n, (n ++ (call.middle ++ ['('])).length⟩ := by
  subst first
  have opening : openingLength? (call.middle ++ ['('] ++ rest) = some (call.middle.length + 1) := by
    have open' : openingLength? ('(' :: rest) = some 1 := by
      simp [openingLength?, show isBlank '(' = false by decide]
    rw [List.append_assoc, List.singleton_append, openingLength?_append_blanks call.blankMiddle,
      open', Option.map_some, Nat.add_comm]
  rw [headNamed_of_named sn named outside opening]
  simp only [List.length_append, List.length_cons, List.length_nil]

/-- The body of the call is found behind its head. -/
theorem bodyOf?_drop_head {p : Char → Prop} (grouped : Grouped p call.body) {c : Char} {cs : Text}
    (first : n = c :: cs) (rest : Text) :
    bodyOf? 0 ((c :: (cs ++ (call.middle ++ ['('] ++ (call.body ++ ')' :: rest)))).drop
      (n ++ (call.middle ++ ['('])).length) = some call.body := by
  have split : c :: (cs ++ (call.middle ++ ['('] ++ (call.body ++ ')' :: rest))) =
      (n ++ (call.middle ++ ['('])) ++ (call.body ++ ')' :: rest) := by simp [first]
  rw [split, List.drop_left, grouped.bodyOf?_eq_some]

end CallText

namespace Cuts

variable {α : Type} {name n : Text}

/-- A call by another name is cut where its arguments are. -/
theorem other {find : Finder α} (sn : ShorthandName name) (keyed : Keyed name find)
    (call : CallText n) (other : ¬Named name n) {qs : List (Piece α)}
    (body : Cuts find call.body qs) :
    Cuts find call.text (call.front.map .kept ++ (n.map .kept ++ ((call.middle ++ ['(']).map .kept ++
      (qs ++ (')' :: call.back).map .kept)))) := by
  have inner := body.append_wordless sn keyed call.wordless_close fun rest _ => call.follows rest
  refine wordless_append sn keyed (wordless_of_blanks call.blankFront) fun before rest _ follows => ?_
  obtain ⟨c, cs, rfl, chars⟩ := call.word
  have stop (rest : Text) : inWord (call.middle ++ ['('] ++ rest).head? = false :=
    call.wordless_open.inWord_head? (by simp)
  have quiet (rest : Text) : Quiet find before (c :: cs) (call.middle ++ ['('] ++ rest) :=
    (quiet_of_word sn chars (stop rest) fun named => absurd named other).mono keyed
  rw [List.append_assoc (c :: cs), List.append_assoc (call.middle ++ ['(']),
    Finder.piecesFrom_append_of_quiet (quiet _),
    Finder.piecesFrom_append_of_quiet (quiet_of_wordless sn keyed call.wordless_open),
    inner _ rest (call.wordless_open.inWord_lastOr_of_ne_nil (by simp) _) follows]
  simp only [List.append_assoc, lastOr_append]

/-- The head of a call by the name is found, with its body. -/
theorem head (sn : ShorthandName name) (call : CallText n) (named : Named name n)
    {p : Char → Prop} (grouped : Grouped p call.body)
    {qs : List (Piece (CallHead × Option Text))}
    (body : Cuts (headsWithBodies (headNamed name)) call.body qs) :
    ∃ length, Cuts (headsWithBodies (headNamed name)) call.text (call.front.map .kept ++
      (.found (⟨n, length⟩, some call.body) length :: (qs ++ (')' :: call.back).map .kept))) := by
  have keyed := keyed_headsWithBodies name
  have inner := body.append_wordless sn keyed call.wordless_close fun rest _ => call.follows rest
  refine ⟨(n ++ (call.middle ++ ['('])).length, wordless_append sn keyed
    (wordless_of_blanks call.blankFront) fun before rest outside follows => ?_⟩
  obtain ⟨c, cs, first, -⟩ := call.word
  have found : headsWithBodies (headNamed name) before c
      ((cs ++ (call.middle ++ ['('])) ++ (call.body ++ ')' :: call.back ++ rest)) =
      some ⟨(cs ++ (call.middle ++ ['('])).length,
        ⟨n, (n ++ (call.middle ++ ['('])).length⟩, some call.body⟩ := by
    rw [headsWithBodies, List.append_assoc cs, call.headNamed_eq_some sn named first outside,
      Option.map_some, List.append_assoc call.body, List.cons_append,
      call.bodyOf?_drop_head grouped first]
    simp [first]
  have split : n ++ (call.middle ++ ['('] ++ (call.body ++ ')' :: call.back)) ++ rest =
      c :: (cs ++ (call.middle ++ ['('])) ++ (call.body ++ ')' :: call.back ++ rest) := by
    simp [first]
  rw [split, Finder.piecesFrom_of_found found, inner _ rest _ follows]
  · simp [first, lastOr_append, lastOr_cons]
  · rw [lastOr_cons, lastOr_append]
    exact call.wordless_open.inWord_lastOr_of_ne_nil (by simp) _

/-- A call that can be spelled out is found as a whole. -/
theorem spelled (sn : ShorthandName name) (call : CallText n) (named : Named name n)
    {p : Char → Prop} (grouped : Grouped p call.body) {spell : List Text → Option Text} {out : Text}
    (spells : spell (semicolonArguments call.body) = some out) :
    ∃ length, Cuts (spellableCalls name spell) call.text
      (call.front.map .kept ++ (.found out length :: call.back.map .kept)) := by
  have keyed := keyed_spellableCalls name spell
  refine ⟨(n ++ (call.middle ++ ['('] ++ (call.body ++ [')']))).length, wordless_append sn keyed
    (wordless_of_blanks call.blankFront) fun before rest outside follows => ?_⟩
  obtain ⟨c, cs, first, -⟩ := call.word
  have found : spellableCalls name spell before c
      ((cs ++ (call.middle ++ ['('] ++ (call.body ++ [')']))) ++ (call.back ++ rest)) =
      some ⟨(cs ++ (call.middle ++ ['('] ++ (call.body ++ [')']))).length, out⟩ := by
    have split : (cs ++ (call.middle ++ ['('] ++ (call.body ++ [')']))) ++ (call.back ++ rest) =
        cs ++ (call.middle ++ ['('] ++ (call.body ++ ')' :: (call.back ++ rest))) := by simp
    rw [split]
    simp only [spellableCalls, call.headNamed_eq_some sn named first outside,
      call.bodyOf?_drop_head grouped first, spells, Option.map_some]
    simp only [first, List.length_append, List.length_cons, List.length_nil, Option.some.injEq,
      Find.mk.injEq, and_true]
    omega
  have split : n ++ (call.middle ++ ['('] ++ (call.body ++ ')' :: call.back)) ++ rest =
      c :: (cs ++ (call.middle ++ ['('] ++ (call.body ++ [')']))) ++ (call.back ++ rest) := by
    simp [first]
  rw [split, Finder.piecesFrom_of_found found,
    Finder.piecesFrom_append_of_quiet (quiet_of_wordless sn keyed (wordless_of_blanks call.blankBack))]
  simp [first, lastOr_append, lastOr_cons]

end Cuts

/-! ## 5. Every call is found -/

/-- The text is what stands between the parentheses of the call. -/
structure BodyOf (call : Text × Option Arguments) (body : Text) : Prop where
  lexes : Lexes body (Arguments.lexemes? call.2)
  plain : '"' ∉ body
  wf : ∀ as ∈ call.2, as.WellFormed

/-- Each call by the name is among the heads that were found, with its body. -/
def Finds (name : Text) (ps : List (Piece (CallHead × Option Text)))
    (calls : List (Text × Option Arguments)) : Prop :=
  ∀ call ∈ calls, Named name call.1 →
    ∃ h body, (h, some body) ∈ ps.filterMap Piece.content? ∧ BodyOf call body

namespace Finds

variable {name : Text} {ps qs : List (Piece (CallHead × Option Text))}
  {calls calls' : List (Text × Option Arguments)}

theorem mono (h : Finds name ps calls)
    (more : ∀ x ∈ ps.filterMap Piece.content?, x ∈ qs.filterMap Piece.content?) :
    Finds name qs calls := fun call mem named => by
  obtain ⟨h', body, found, lexes⟩ := h call mem named
  exact ⟨h', body, more _ found, lexes⟩

theorem append (h : Finds name ps calls) (h' : Finds name qs calls') :
    Finds name (ps ++ qs) (calls ++ calls') := fun call mem named => by
  rcases List.mem_append.mp mem with mem | mem
  · obtain ⟨head, body, found, lexes⟩ := h call mem named
    exact ⟨head, body, by simp [List.filterMap_append, found], lexes⟩
  · obtain ⟨head, body, found, lexes⟩ := h' call mem named
    exact ⟨head, body, by simp [List.filterMap_append, found], lexes⟩

theorem kept_append (h : Finds name ps calls) (t : Text) :
    Finds name (t.map .kept ++ ps) calls :=
  h.mono fun x hx => by rwa [List.filterMap_append, filterMap_content?_map_kept, List.nil_append]

theorem append_kept (h : Finds name ps calls) (t : Text) :
    Finds name (ps ++ t.map .kept) calls :=
  h.mono fun x hx => by rwa [List.filterMap_append, filterMap_content?_map_kept, List.append_nil]

end Finds

section Calls

variable {name : Text} (sn : ShorthandName name)

include sn

/-- A call is found if its name is the one, and so are those between its parentheses. -/
theorem exists_finds_of_call {n : Text} {as : Option Arguments} {s : Text} (wf : ∀ a ∈ as, a.WellFormed)
    (h : Lexes s (.name n :: .symbol .openParen :: (Arguments.lexemes? as ++ [.symbol .closeParen])))
    (plain : '"' ∉ s) {calls : List (Text × Option Arguments)}
    (inside : ∀ body, Lexes body (Arguments.lexemes? as) → '"' ∉ body →
      ∃ ps, Cuts (headsWithBodies (headNamed name)) body ps ∧ Finds name ps calls) :
    ∃ ps, Cuts (headsWithBodies (headNamed name)) s ps ∧ Finds name ps ((n, as) :: calls) := by
  have apart : (Arguments.lexemes? as).IsChain Lexer.Apart := by
    cases as with
    | none => exact .nil
    | some as => exact as.phrase.apart
  obtain ⟨call, rfl, lexes⟩ := exists_call_of_lexes apart h
  have plain' : '"' ∉ call.body := fun quote => plain (by simp [CallText.text, quote])
  obtain ⟨qs, cuts, finds⟩ := inside call.body lexes plain'
  by_cases named : Named name n
  · have grouped : Grouped (fun _ => True) call.body := by
      cases as with
      | none => exact grouped_of_lexes lexes plain' (fun _ _ => trivial) nofun nofun
      | some as => exact as.grouped (wf as rfl) lexes plain'
    obtain ⟨length, cut⟩ := cuts.head sn call named grouped
    refine ⟨_, cut, fun c mem named => ?_⟩
    rcases List.mem_cons.mp mem with rfl | mem
    · exact ⟨⟨n, length⟩, call.body, by simp [List.filterMap_append, Piece.content?],
        lexes, plain', wf⟩
    · obtain ⟨h', body, found, lexes⟩ := finds c mem named
      refine ⟨h', body, ?_, lexes⟩
      simp only [List.filterMap_append, List.filterMap_cons, Piece.content?, List.mem_append,
        List.mem_cons]
      exact .inr (.inr (.inl found))
  · refine ⟨_, Cuts.other sn (keyed_headsWithBodies name) call named cuts, fun c mem named' => ?_⟩
    rcases List.mem_cons.mp mem with rfl | mem
    · exact absurd named' named
    · exact (((finds.append_kept _).kept_append _).kept_append _).kept_append _ c mem named'

mutual

/-- **Every call by a name is found** where a form is written. -/
theorem Form.exists_finds : (f : Form) → f.WellFormed → ∀ s, Lexes s f.lexemes → '"' ∉ s →
    ∃ ps, Cuts (headsWithBodies (headNamed name)) s ps ∧ Finds name ps f.calls
  | .number _, _, s, h, plain =>
    ⟨_, .of_quiet sn (keyed_headsWithBodies name) h plain (.singleton _), nofun⟩
  | .text _, _, s, h, plain =>
    ⟨_, .of_quiet sn (keyed_headsWithBodies name) h plain (.singleton _), nofun⟩
  | .name _, _, s, h, plain =>
    ⟨_, .of_quiet sn (keyed_headsWithBodies name) h plain (.singleton _), nofun⟩
  | .paren f, wf, s, h, plain => by
    obtain ⟨t, rest, rfl, ht, hrest⟩ := h.uncons
    obtain ⟨x, t', rfl, hx, ht'⟩ := hrest.split
    simp only [List.mem_append, not_or] at plain
    obtain ⟨ps, cuts, finds⟩ := f.exists_finds wf x hx plain.2.1
    have keyed := keyed_headsWithBodies name
    refine ⟨_, (cuts.append_wordless sn keyed (wordless_of_lexes ht').1 fun rest _ =>
      follows_of_lexes ht' nofun).wordless_append sn keyed (wordless_of_lexes ht).1, ?_⟩
    exact (finds.append_kept _).kept_append _
  | .signed _ f, ⟨wf, _⟩, s, h, plain => by
    obtain ⟨t, x, rfl, ht, hx⟩ := h.uncons
    simp only [List.mem_append, not_or] at plain
    obtain ⟨ps, cuts, finds⟩ := f.exists_finds wf x hx plain.2
    exact ⟨_, cuts.wordless_append sn (keyed_headsWithBodies name) (wordless_of_lexes ht).1,
      finds.kept_append _⟩
  | .binary o l r, ⟨wfl, wfr, _⟩, s, h, plain => by
    obtain ⟨x, t, y, rfl, hx, ht, hy⟩ := h.split_at
    simp only [List.mem_append, not_or] at plain
    obtain ⟨ps, cuts, finds⟩ := l.exists_finds wfl x hx plain.1
    obtain ⟨qs, cuts', finds'⟩ := r.exists_finds wfr y hy plain.2.2
    exact ⟨_, cuts.join sn (keyed_headsWithBodies name) ht nofun cuts',
      finds.append (finds'.kept_append _)⟩
  | .choice c a b, ⟨wfc, wfa, wfb, _⟩, s, h, plain => by
    obtain ⟨x, t, rest, rfl, hx, ht, hrest⟩ := h.split_at
    obtain ⟨y, t', z, rfl, hy, ht', hz⟩ := hrest.split_at
    simp only [List.mem_append, not_or] at plain
    obtain ⟨ps, cuts, finds⟩ := c.exists_finds wfc x hx plain.1
    obtain ⟨qs, cuts', finds'⟩ := a.exists_finds wfa y hy plain.2.2.1
    obtain ⟨rs, cuts'', finds''⟩ := b.exists_finds wfb z hz plain.2.2.2.2
    have keyed := keyed_headsWithBodies name
    exact ⟨_, cuts.join sn keyed ht nofun (cuts'.join sn keyed ht' nofun cuts''),
      finds.append ((finds'.append (finds''.kept_append _)).kept_append _)⟩
  | .emptyCall n, _, s, h, plain =>
    @exists_finds_of_call name sn n none s nofun h plain _ fun body hbody plain' =>
      ⟨_, .of_quiet sn (keyed_headsWithBodies name) hbody plain' .nil, nofun⟩
  | .call n as, wf, s, h, plain =>
    @exists_finds_of_call name sn n (some as) s (fun _ h => Option.some.inj h ▸ wf) h plain _
      fun body hbody plain' => as.exists_finds wf body hbody plain'

theorem Arguments.exists_finds : (as : Arguments) → as.WellFormed → ∀ s, Lexes s as.lexemes →
    '"' ∉ s → ∃ ps, Cuts (headsWithBodies (headNamed name)) s ps ∧ Finds name ps as.calls
  | .last f, wf, s, h, plain => f.exists_finds wf s h plain
  | .more f separator as, ⟨wf, wfs⟩, s, h, plain => by
    obtain ⟨x, t, y, rfl, hx, ht, hy⟩ := h.split_at
    simp only [List.mem_append, not_or] at plain
    obtain ⟨ps, cuts, finds⟩ := f.exists_finds wf x hx plain.1
    obtain ⟨qs, cuts', finds'⟩ := as.exists_finds wfs y hy plain.2.2
    exact ⟨_, cuts.join sn (keyed_headsWithBodies name) ht (by cases separator <;> nofun) cuts',
      finds.append (finds'.kept_append _)⟩

end

omit sn in
theorem Cuts.pieces_eq {α : Type} {find : Finder α} {s : Text} {ps : List (Piece α)}
    (h : Cuts find s ps) : find.pieces s = ps := by
  have := h none [] rfl .nil
  rwa [List.append_nil, Finder.piecesFrom, List.append_nil] at this

/-- A call by the name in a form is a site of its text. -/
theorem exists_callSite {f : Form} (wf : f.WellFormed) {s : Text} (h : Lexes s f.lexemes)
    (plain : '"' ∉ s) {call : Text × Option Arguments} (mem : call ∈ f.calls)
    (named : Named name call.1) :
    ∃ site ∈ callSites (headNamed name) s, BodyOf call site.body := by
  obtain ⟨ps, cuts, finds⟩ := f.exists_finds sn wf s h plain
  obtain ⟨head, body, found, lexes⟩ := finds call mem named
  obtain ⟨start, place⟩ := exists_mem_placesFrom found 0
  refine ⟨⟨head.name, start, start + head.length + body.length + 1, body⟩, ?_, lexes⟩
  refine List.mem_filterMap.mpr ⟨(start, head, some body), ?_, rfl⟩
  rw [Finder.places, cuts.pieces_eq]
  exact place

/-- Where no call by the name stands there is no site. -/
theorem callSites_eq_nil {f : Form} {s : Text} (h : Lexes s f.lexemes) (plain : '"' ∉ s)
    (free : ∀ call ∈ f.calls, ¬Named name call.1) : callSites (headNamed name) s = [] := by
  have cuts := Cuts.of_quiet sn (keyed_headsWithBodies name) h plain (f.isChain_noHead free)
  rw [callSites, Finder.places, cuts.pieces_eq, placesFrom_map_kept]
  rfl

end Calls

end Haulage
