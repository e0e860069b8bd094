/-
# The numbers of a formula

Names of variables may be any texts, and the search puts a literal wherever one of them stands
between two boundaries.  Such a stretch begins and ends between two lexemes, or inside a number or a
text literal; a name or a symbol of two characters has no boundary inside.  So where it shares no
character with a number or a text, it takes whole lexemes, and the numbers of the formula stay what
they are (`numbers_inlineLiterals`).

That is not all that can go wrong.  A literal without parentheses is digits, and these run together
with a word next to them.  A stretch that begins or ends with no character of a word has one next to
it, for else there would be no boundary.  In `f(e-5)` with a literal for `f(` a number is made of it
all, `3e-5`.  `Clear` asks for both.
-/
import Haulage.Proofs.Substitution.Rejection

namespace Haulage

open Lexer (Apart Ends Lexes Spells)

/-! ## 1. What is put in place of variables -/

deriving instance DecidableEq for Piece

/-- The pieces of a stretch: what is put in place of variables, and the characters that stay. -/
def Segment.variablePieces (literals : List (Text × Text)) : Segment → List (Piece Text)
  | plain x => (namesIn (longestFirst literals)).pieces x
  | quoted x => x.map .kept

/-- The pieces of a formula. -/
def variablePieces (literals : List (Text × Text)) (s : Text) : List (Piece Text) :=
  (segments s).flatMap (Segment.variablePieces literals)

/-- **Inlining puts the pieces together.** -/
theorem inlineLiterals_eq_flatMap (literals : List (Text × Text)) {s : Text}
    (commas : CommasApart s) :
    inlineLiterals literals s = (variablePieces literals s).flatMap Piece.text := by
  rw [inlineLiterals, outsideLiterals, variablePieces, List.flatMap_assoc]
  refine List.flatMap_congr fun g mem => ?_
  cases g with
  | plain x =>
    dsimp only
    rw [replaceAll_decimalCommas (commas.of_infix ((segmented s).part mem).isInfix)]
    rfl
  | quoted x => exact (flatMap_text_map_kept x).symm

/-- Between a character in front of it and a text behind it, may the text be cut into the pieces? -/
inductive Substitutes (literals : List (Text × Text)) :
    Option Char → Text → Text → List (Piece Text) → Prop
  | nil {before : Option Char} {rest : Text} : Substitutes literals before [] rest []
  | keep {before : Option Char} {c : Char} {x rest : Text} {ps : List (Piece Text)}
      (more : Substitutes literals (some c) x rest ps) :
      Substitutes literals before (c :: x) rest (.kept c :: ps)
  | key {before : Option Char} {n literal x rest : Text} {ps : List (Piece Text)}
      (mem : (n, literal) ∈ literals) (nonempty : n ≠ [])
      (start : isBoundary before n.head? = true)
      (stop : isBoundary n.getLast? (x ++ rest).head? = true)
      (more : Substitutes literals (lastOr before n) x rest ps) :
      Substitutes literals before (n ++ x) rest (.found literal n.length :: ps)

namespace Substitutes

variable {literals : List (Text × Text)} {before : Option Char} {x y rest : Text}
  {ps qs : List (Piece Text)}

theorem append (hx : Substitutes literals before x (y ++ rest) ps)
    (hy : Substitutes literals (lastOr before x) y rest qs) :
    Substitutes literals before (x ++ y) rest (ps ++ qs) := by
  generalize behind : y ++ rest = r at hx
  induction hx with
  | nil => exact hy
  | keep _ ih =>
    rw [lastOr_cons] at hy
    exact .keep (ih hy behind)
  | key mem nonempty start stop _ ih =>
    rw [lastOr_append] at hy
    subst behind
    rw [← List.append_assoc] at stop
    rw [List.append_assoc]
    exact .key mem nonempty start stop (ih hy rfl)

/-- A text may stay as it is. -/
theorem kept (x : Text) : Substitutes literals before x rest (x.map .kept) := by
  induction x generalizing before with
  | nil => exact .nil
  | cons c x ih => exact .keep ih

/-- Only boundaries at the ends of a text matter to it. -/
theorem frame (h : Substitutes literals none x [] ps) (outside : inWord before = false)
    (stop : inWord rest.head? = false) : Substitutes literals before x rest ps := by
  have boundary {c : Option Char} {y : Text} :
      isBoundary c (y ++ []).head? = isBoundary c (y ++ rest).head? := by
    cases y with
    | nil => simp [isBoundary, stop]
    | cons d y => rfl
  have extend {before : Option Char} {x : Text} {ps : List (Piece Text)}
      (h : Substitutes literals before x [] ps) : Substitutes literals before x rest ps := by
    generalize empty : ([] : Text) = r at h
    induction h with
    | nil => exact .nil
    | keep _ ih => exact .keep (ih empty)
    | key mem nonempty start stop _ ih =>
      subst empty
      exact .key mem nonempty start (boundary ▸ stop) (ih rfl)
  cases extend h with
  | nil => exact .nil
  | keep more => exact .keep more
  | key mem nonempty start stop more =>
    refine .key mem nonempty ?_ stop ?_
    · rw [← start, isBoundary, isBoundary, outside]
      rfl
    · obtain ⟨c, n, rfl⟩ := List.exists_cons_of_ne_nil nonempty
      rwa [lastOr_cons] at more ⊢

end Substitutes

/-- What the search finds is a name between two boundaries. -/
theorem namesIn_eq_some {literals : List (Text × Text)} {before : Option Char} {c : Char}
    {cs : Text} {f : Find Text} (h : namesIn (longestFirst literals) before c cs = some f) :
    ∃ n rest, cs = n ++ rest ∧ f.more = n.length ∧ (c :: n, f.content) ∈ literals ∧
      isBoundary before (some c) = true ∧ isBoundary (c :: n).getLast? rest.head? = true := by
  obtain ⟨⟨n, literal⟩, found, rfl⟩ := Option.map_eq_some_iff.mp h
  have stands := List.find?_some found
  obtain ⟨mem, some⟩ := List.mem_filter.mp (List.mem_mergeSort.mp (List.mem_of_find?_eq_some found))
  simp only [standsAt, Bool.and_eq_true, List.isPrefixOf_iff_prefix] at stands
  obtain ⟨⟨⟨rest, whole⟩, start⟩, stop⟩ := stands
  cases n with
  | nil => cases some
  | cons d n =>
    obtain ⟨rfl, rfl⟩ := List.cons.inj whole
    refine ⟨n, rest, rfl, rfl, mem, start, ?_⟩
    simpa using stop

/-- The search cuts a stretch into pieces. -/
theorem substitutes_stretch (literals : List (Text × Text)) (before : Option Char) (x : Text) :
    Substitutes literals before x []
      ((namesIn (longestFirst literals)).piecesFrom before 0 x) := by
  induction size : x.length using Nat.strong_induction_on generalizing before x with
  | _ length ih =>
  subst size
  cases x with
  | nil => exact .nil
  | cons c cs =>
    cases found : namesIn (longestFirst literals) before c cs with
    | none =>
      rw [Finder.piecesFrom, found]
      exact .keep (ih _ (Nat.lt_succ_self _) _ _ rfl)
    | some f =>
      obtain ⟨more, literal⟩ := f
      obtain ⟨n, rest, rfl, rfl, mem, start, stop⟩ := namesIn_eq_some found
      have pieces := Finder.piecesFrom_of_found found
      rw [List.cons_append] at pieces
      rw [pieces]
      have shorter : rest.length < (c :: (n ++ rest)).length := by simp
      refine .key mem (List.cons_ne_nil c n) start ?_ (ih _ shorter _ _ rfl)
      rwa [List.append_nil]

/-- **The search cuts a formula into pieces.** -/
theorem substitutes_variablePieces (literals : List (Text × Text)) (s : Text) :
    Substitutes literals none s [] (variablePieces literals s) := by
  refine segments_induction rfl Substitutes.append ?_ (fun _ x _ => .kept x) s
  intro before x rest outside stop
  exact (substitutes_stretch literals none x).frame outside stop

/-! ## 2. Lexemes between boundaries -/

/-- Is the lexeme a number or a text? -/
def Lexeme.IsValue : Lexeme → Prop
  | number _ | text _ => True
  | name _ | symbol _ => False

/-- Among the lexemes of the text the lexeme is the one that is spelled between the other two. -/
def SpelledAt (x sp : Text) (l : Lexeme) (y : Text) : Prop :=
  ∃ front back, Lexes x front ∧ Spells sp l y ∧ Lexes y back ∧
    Lexes (x ++ (sp ++ y)) (front ++ l :: back)

namespace Lexer

variable {x y sp rest : Text} {l : Lexeme} {ls : List Lexeme}

/-- May a number or a text start with the character? -/
def startsValue (c : Char) : Bool := isDigitLike c || c == '.' || c == '"'

theorem Spells.startsValue {c : Char} {cs : Text} (h : Spells (c :: cs) l rest)
    (value : l.IsValue) : startsValue c = true := by
  cases h with
  | number starts =>
    simp only [startsNumber, Bool.or_eq_true, Bool.and_eq_true] at starts
    rcases starts with digit | ⟨point, -⟩
    · simp [Lexer.startsValue, digit]
    · simp [Lexer.startsValue, point]
  | text => rfl
  | name | pair | single => exact value.elim

theorem Spells.isNameChar_of_symbol {s : Symbol} (h : Spells sp (.symbol s) rest) :
    ∀ c ∈ sp, isNameChar c = false := by
  intro c mem
  cases h with
  | pair pair =>
    obtain ⟨first, rfl⟩ := mem_symbolChars_of_ofPair? pair
    rcases List.mem_pair.mp mem with rfl | rfl
    · exact (class_of_mem_symbolChars first).2.1
    · decide
  | single single =>
    obtain rfl := List.mem_singleton.mp mem
    exact (class_of_mem_symbolChars (mem_symbolChars_of_ofChar? single)).2.1

/-- **A boundary lies between two lexemes**, or inside a number or a text. -/
theorem Lexes.cut_of_boundary (h : Lexes (x ++ y) ls)
    (boundary : x ≠ [] → isBoundary x.getLast? y.head? = true)
    (outside : ∀ x' p q y' l, x = x' ++ p → y = q ++ y' → p ≠ [] → q ≠ [] →
      (∃ front back, ls = front ++ l :: back ∧ Lexes x' front ∧ Spells (p ++ q) l y' ∧
        Lexes y' back) → ¬ l.IsValue) :
    ∃ front back, ls = front ++ back ∧ Lexes x front ∧ Lexes y back := by
  rcases h.cut with cut | ⟨x', p, q, y', front, l, back, rfl, rfl, hp, hq, rfl, hx, spells, hy⟩
  · exact cut
  have value := outside x' p q y' l rfl rfl hp hq ⟨front, back, rfl, hx, spells, hy⟩
  have boundary := boundary (by simp [hp])
  obtain ⟨c, p', rfl⟩ : ∃ c p', p = p' ++ [c] := by
    rcases List.eq_nil_or_concat p with rfl | ⟨p', c, rfl⟩
    · exact absurd rfl hp
    · exact ⟨c, p', List.concat_eq_append⟩
  obtain ⟨d, q', rfl⟩ := List.exists_cons_of_ne_nil hq
  rw [← List.append_assoc, List.getLast?_concat, List.cons_append, List.head?_cons, isBoundary,
    inWord_some, inWord_some] at boundary
  -- both neighbours belong to a word, or neither does
  cases l with
  | number | text => exact absurd trivial value
  | name n =>
    obtain rfl := eq_of_spells_name spells
    obtain ⟨-, -, -, word⟩ := word_of_spells spells
    rw [word c (by simp), word d (by simp)] at boundary
    cases boundary
  | symbol s =>
    have other := spells.isNameChar_of_symbol
    rw [other c (by simp), other d (by simp)] at boundary
    cases boundary

/-- Every lexeme of a text is spelled somewhere in it. -/
theorem Lexes.exists_spells {s : Text} {front back : List Lexeme} (h : Lexes s (front ++ l :: back)) :
    ∃ x sp y, s = x ++ (sp ++ y) ∧ Lexes x front ∧ Spells sp l y ∧ Lexes y back := by
  generalize whole : front ++ l :: back = ls at h
  induction h generalizing front with
  | nil => simp at whole
  | @blank c cs ls blank _ ih =>
    obtain ⟨x, sp, y, rfl, hx, spells, hy⟩ := ih whole
    exact ⟨c :: x, sp, y, rfl, .blank blank hx, spells, hy⟩
  | @token sp' rest l' ls spells' more ih =>
    cases front with
    | nil =>
      obtain ⟨rfl, rfl⟩ := List.cons.inj whole
      exact ⟨[], sp', rest, rfl, .nil, spells', more⟩
    | cons k front =>
      obtain ⟨rfl, inner⟩ := List.cons.inj whole
      obtain ⟨x, sp, y, rfl, hx, spells, hy⟩ := ih inner
      exact ⟨sp' ++ x, sp, y, by rw [List.append_assoc], .token spells'.truncate hx, spells, hy⟩

theorem Spells.head?_ne_openParen {v : Float} (h : Spells sp (.number v) rest) :
    sp.head? ≠ some '(' := by
  intro paren
  exact absurd (h.mem_number (List.mem_of_head? paren)) (by decide)

section Words

variable (none : ∀ l ∈ ls, ¬ l.IsValue)

include none

/-- Without numbers and texts, a word in front is a name. -/
theorem Lexes.exists_name_of_head (h : Lexes x ls) (word : inWord x.head? = true) :
    ∃ n back, ls = .name n :: back := by
  cases h with
  | nil => cases word
  | blank blank =>
    rw [List.head?_cons, inWord_some, isNameChar_of_isBlank blank] at word
    cases word
  | @token sp rest l ls spells _ =>
    cases l with
    | number | text => exact absurd trivial (none _ List.mem_cons_self)
    | name n => exact ⟨n, ls, rfl⟩
    | symbol s =>
      obtain ⟨c, sp, rfl⟩ := List.exists_cons_of_ne_nil spells.ne_nil
      rw [List.cons_append, List.head?_cons, inWord_some,
        spells.isNameChar_of_symbol c List.mem_cons_self] at word
      cases word

/-- Without numbers and texts, a word at the end is a name. -/
theorem Lexes.exists_name_of_getLast (h : Lexes x ls) (word : inWord x.getLast? = true) :
    ∃ front n, ls = front ++ [.name n] := by
  induction h with
  | nil => cases word
  | @blank c cs ls blank _ ih =>
    cases cs with
    | nil =>
      rw [List.getLast?_singleton, inWord_some, isNameChar_of_isBlank blank] at word
      cases word
    | cons d cs => exact ih none (by simpa using word)
  | @token sp rest l ls spells more ih =>
    obtain ⟨first, others⟩ := List.forall_mem_cons.mp none
    by_cases last : rest = []
    · subst last
      obtain rfl := more.eq_nil
      cases l with
      | number | text => exact absurd trivial first
      | name n => exact ⟨[], n, rfl⟩
      | symbol s =>
        rw [List.append_nil, List.getLast?_eq_some_getLast spells.ne_nil, inWord_some,
          spells.isNameChar_of_symbol _ (List.getLast_mem _)] at word
        cases word
    · rw [List.getLast?_append_of_ne_nil _ last] at word
      obtain ⟨front, n, rfl⟩ := ih others word
      exact ⟨l :: front, n, rfl⟩

end Words

/-! A number may stand wherever a name may, and parentheses everywhere. -/

theorem Apart.number_of_name {n : Text} (h : Apart l (.name n)) (y : Float) :
    Apart l (.number y) := by
  cases l with
  | symbol s => cases s <;> first | trivial | exact nofun
  | _ => exact h

theorem Apart.of_name {n : Text} (h : Apart (.name n) l) (y : Float) : Apart (.number y) l := by
  cases l <;> exact h

theorem apart_openParen (l : Lexeme) : Apart l (.symbol .openParen) := by
  cases l with
  | symbol s => cases s <;> first | trivial | exact nofun
  | _ => trivial

end Lexer

/-! ## 3. Stretches that leave numbers alone -/

/-- The numbers among lexemes. -/
def numbersAmong (ls : List Lexeme) : List Float :=
  ls.filterMap fun
    | .number x => some x
    | _ => none

@[simp] theorem numbersAmong_append (ls ls' : List Lexeme) :
    numbersAmong (ls ++ ls') = numbersAmong ls ++ numbersAmong ls' :=
  List.filterMap_append

theorem numbersAmong_eq_nil {ls : List Lexeme} (none : ∀ l ∈ ls, ¬ l.IsValue) :
    numbersAmong ls = [] := by
  refine List.filterMap_eq_nil_iff.mpr fun l mem => ?_
  cases l with
  | number => exact absurd trivial (none _ mem)
  | _ => rfl

/-- So many characters of the text, from the place on, share none with a number or a text literal of
it; and if the literal for them is not in parentheses, they begin and end with a word. -/
structure Clear (s : Text) (place length : Nat) (literal : Text) : Prop where
  apart : ∀ x sp l y, s = x ++ (sp ++ y) → SpelledAt x sp l y → l.IsValue →
    x.length + sp.length ≤ place ∨ place + length ≤ x.length
  word : literal.head? ≠ some '(' → inWord s[place]? = true ∧ inWord s[place + length - 1]? = true

/-- How many characters of the formula the pieces take. -/
def lengthOf (ps : List (Piece Text)) : Nat := (ps.map Piece.length).sum

@[simp] theorem lengthOf_append (ps qs : List (Piece Text)) :
    lengthOf (ps ++ qs) = lengthOf ps + lengthOf qs := by
  simp [lengthOf]

@[simp] theorem lengthOf_kept (c : Char) : lengthOf [.kept c] = 1 := rfl

@[simp] theorem lengthOf_found (s : Text) (n : Nat) : lengthOf [.found s n] = n := rfl

/-- All that is put in place of variables leaves numbers alone. -/
def AllClear (literals : List (Text × Text)) (s : Text) : Prop :=
  ∀ ps literal n qs, variablePieces literals s = ps ++ .found literal n :: qs →
    Clear s (lengthOf ps) n literal

/-! ## 4. Lexemes behind each other -/

/-- The numbers are still there, in order; and what may stand in front of the old lexemes may stand in
front of the new ones. -/
structure Keeps (ls ms : List Lexeme) : Prop where
  apart : ms.IsChain Apart
  numbers : (numbersAmong ls).Sublist (numbersAmong ms)
  head : ∀ l, (∀ l' ∈ ls.head?, Apart l l') → ∀ m ∈ ms.head?, Apart l m

theorem Keeps.refl {ls : List Lexeme} (apart : ls.IsChain Apart) : Keeps ls ls :=
  ⟨apart, .refl _, fun _ h => h⟩

/-- Other lexemes in the place of some that are no values. -/
theorem Keeps.exchange {front key new back ms : List Lexeme}
    (apart : (front ++ (key ++ back)).IsChain Apart) (none : ∀ l ∈ key, ¬ l.IsValue)
    (inside : new.IsChain Apart) (nonempty : new ≠ [])
    (enter : ∀ l, (∀ l' ∈ (key ++ back).head?, Apart l l') → ∀ m ∈ new.head?, Apart l m)
    (leave : ∀ l ∈ new.getLast?, ∀ m ∈ ms.head?, Apart l m) (h : Keeps back ms) :
    Keeps (front ++ (key ++ back)) (front ++ (new ++ ms)) := by
  obtain ⟨apartFront, -, joint⟩ := List.isChain_append.mp apart
  have head : (new ++ ms).head? = new.head? := List.head?_append_of_ne_nil _ nonempty
  refine ⟨?_, ?_, ?_⟩
  · have behind : (new ++ ms).IsChain Apart := List.isChain_append.mpr ⟨inside, h.apart, leave⟩
    refine List.isChain_append.mpr ⟨apartFront, behind, fun l last m first => ?_⟩
    rw [head] at first
    exact enter l (joint l last) m first
  · simp only [numbersAmong_append, numbersAmong_eq_nil none, List.nil_append]
    exact (h.numbers.trans (List.sublist_append_right _ _)).append_left _
  · intro l start
    cases front with
    | nil =>
      rw [List.nil_append, head]
      exact enter l start
    | cons k front => exact start

/-- **A literal in the place of lexemes that are no values.**  Digits may stand where the lexemes
begin and end with names. -/
theorem Keeps.literal {x : Float} (finite : x.isFinite = true) {front key back ms : List Lexeme}
    (apart : (front ++ (key ++ back)).IsChain Apart) (none : ∀ l ∈ key, ¬ l.IsValue)
    (word : (Datum.literal (.number x)).head? ≠ some '(' →
      (∃ n ls, key = .name n :: ls) ∧ ∃ ls n, key = ls ++ [.name n])
    (h : Keeps back ms) :
    Keeps (front ++ (key ++ back)) (front ++ ((Datum.form (.number x)).lexemes ++ ms)) := by
  have phrase := (Datum.form (.number x)).phrase
  refine .exchange apart none phrase.apart phrase.ne_nil ?_ ?_ h
  · intro l start m first
    rcases Datum.literal_cases finite with ⟨y, form, spells⟩ | ⟨y, cs, form, -⟩
    · rw [form] at first
      obtain rfl := Option.some.inj first
      obtain ⟨⟨n, ls, rfl⟩, -⟩ := word spells.head?_ne_openParen
      exact (start _ rfl).number_of_name y
    · rw [form] at first
      obtain rfl := Option.some.inj first
      exact Lexer.apart_openParen l
  · intro l last m first
    rcases Datum.literal_cases finite with ⟨y, form, spells⟩ | ⟨y, cs, form, -⟩
    · rw [form] at last
      obtain rfl := Option.some.inj last
      obtain ⟨-, ls, n, rfl⟩ := word spells.head?_ne_openParen
      obtain ⟨-, -, joint⟩ := List.isChain_append.mp apart.right_of_append
      exact (h.head (.name n) (joint _ (by simp)) m first).of_name y
    · rw [form] at last
      obtain rfl : .symbol .closeParen = l := by simpa [Form.lexemes] using last
      trivial

/-- What is said of the places of a text holds for what comes behind a part that is cut into lexemes
by itself. -/
theorem Clear.behind {p u x sp y literal : Text} {ls front back : List Lexeme} {l : Lexeme}
    {place length : Nat} (clear : Clear (p ++ u) place length literal) (value : l.IsValue)
    (passed : Lexes p ls) (apart : (ls ++ (front ++ l :: back)).IsChain Apart)
    (lexes : Lexes u (front ++ l :: back)) (whole : u = x ++ (sp ++ y)) (hx : Lexes x front)
    (spells : Spells sp l y) (hy : Lexes y back) :
    p.length + x.length + sp.length ≤ place ∨ place + length ≤ p.length + x.length := by
  subst whole
  have chain : (ls ++ front).IsChain Apart := by
    rw [← List.append_assoc] at apart
    exact apart.left_of_append
  have spelled : SpelledAt (p ++ x) sp l y := by
    refine ⟨ls ++ front, back, passed.append hx chain, spells, hy, ?_⟩
    simpa using passed.append lexes apart
  simpa using clear.apart (p ++ x) sp l y (by simp) spelled value

section

variable {p k n x literal : Text} {passed ls : List Lexeme} {place length : Nat}

/-- **A clear stretch begins and ends between two lexemes.** -/
theorem Clear.cut (clear : Clear (p ++ (k ++ x)) place length literal) (some : 0 < length)
    (edge : p.length + k.length = place ∨ p.length + k.length = place + length)
    (boundary : k ≠ [] → isBoundary k.getLast? x.head? = true) (lexesp : Lexes p passed)
    (lexes : Lexes (k ++ x) ls) (apart : (passed ++ ls).IsChain Apart) :
    ∃ front back, ls = front ++ back ∧ Lexes k front ∧ Lexes x back := by
  refine lexes.cut_of_boundary boundary ?_
  rintro x' p' q y' l rfl rfl begun more ⟨front, back, rfl, hx', spells, hy⟩ value
  have outside := clear.behind value lexesp apart lexes (by simp) hx' spells hy
  have := List.length_pos_iff.mpr begun
  have := List.length_pos_iff.mpr more
  simp only [List.length_append] at outside edge
  omega

/-- No value is among the lexemes of a clear stretch. -/
theorem Clear.not_isValue {key back : List Lexeme}
    (clear : Clear (p ++ (n ++ x)) p.length n.length literal) (lexesp : Lexes p passed)
    (hn : Lexes n key) (hx : Lexes x back) (apart : (passed ++ (key ++ back)).IsChain Apart) :
    ∀ l ∈ key, ¬ l.IsValue := by
  intro l mem value
  obtain ⟨a, b, rfl⟩ := List.append_of_mem mem
  have lexes : Lexes (n ++ x) (a ++ l :: b ++ back) := hn.append hx apart.right_of_append
  obtain ⟨x', sp, y, rfl, hx', spells, hy⟩ := hn.exists_spells
  have lexemes : a ++ l :: b ++ back = a ++ l :: (b ++ back) := by simp
  rw [lexemes] at apart lexes
  have chain : (l :: (b ++ back)).IsChain Apart := apart.right_of_append.right_of_append
  have behind : Lexes (y ++ x) (b ++ back) := hy.append hx chain.of_cons
  have spells' : Spells sp l (y ++ x) := by
    have alone : Spells sp l ([] ++ y) := spells
    exact alone.truncate.extend (behind.ends fun l' next => chain.rel_head? next)
  have outside := clear.behind value lexesp apart lexes (by simp) hx' spells' behind
  have := List.length_pos_iff.mpr spells.ne_nil
  simp only [List.length_append] at outside
  omega

/-- Words stand at both ends of a clear stretch that becomes digits. -/
theorem Clear.inWord_ends (clear : Clear (p ++ (n ++ x)) p.length n.length literal) (nonempty : n ≠ [])
    (digits : literal.head? ≠ some '(') :
    inWord n.head? = true ∧ inWord n.getLast? = true := by
  have size := List.length_pos_iff.mpr nonempty
  have at' (i : Nat) (inside : i < n.length) : (p ++ (n ++ x))[p.length + i]? = n[i]? := by
    rw [List.getElem?_append_right (Nat.le_add_right _ _), Nat.add_sub_cancel_left]
    exact List.getElem?_append_left inside
  obtain ⟨first, last⟩ := clear.word digits
  rw [← Nat.add_zero p.length, at' 0 size, ← List.head?_eq_getElem?] at first
  rw [Nat.add_sub_assoc (show 1 ≤ n.length from size), at' _ (Nat.sub_lt size one_pos),
    ← List.getLast?_eq_getElem?] at last
  exact ⟨first, last⟩

/-- **A clear stretch takes whole lexemes**, and no value is among them. -/
theorem Clear.exists_lexes
    (clear : Clear (p ++ (k ++ (n ++ x))) (p.length + k.length) n.length literal)
    (nonempty : n ≠ []) (start : k ≠ [] → isBoundary k.getLast? n.head? = true)
    (stop : isBoundary n.getLast? x.head? = true) (lexesp : Lexes p passed)
    (lexes : Lexes (k ++ (n ++ x)) ls) (apart : (passed ++ ls).IsChain Apart) :
    ∃ front key back, ls = front ++ (key ++ back) ∧ Lexes k front ∧ Lexes n key ∧ Lexes x back ∧
      (∀ l ∈ key, ¬ l.IsValue) ∧ (literal.head? ≠ some '(' →
        (∃ n ls, key = .name n :: ls) ∧ ∃ ls n, key = ls ++ [.name n]) := by
  have size := List.length_pos_iff.mpr nonempty
  obtain ⟨front, rest, rfl, hk, hrest⟩ := clear.cut size (.inl rfl)
    (by rwa [List.head?_append_of_ne_nil _ nonempty]) lexesp lexes apart
  -- what is in front of the stretch is passed
  rw [← List.append_assoc, ← List.length_append] at clear
  rw [← List.append_assoc] at apart
  have lexespk : Lexes (p ++ k) (passed ++ front) := lexesp.append hk apart.left_of_append
  obtain ⟨key, back, rfl, hn, hx⟩ := clear.cut size (.inr rfl) (fun _ => stop) lexespk hrest apart
  have none := clear.not_isValue lexespk hn hx apart
  refine ⟨front, key, back, rfl, hk, hn, hx, none, fun digits => ?_⟩
  obtain ⟨first, last⟩ := clear.inWord_ends nonempty digits
  exact ⟨hn.exists_name_of_head none first, hn.exists_name_of_getLast none last⟩

end

/-! ## 5. The whole of a formula -/

section

variable {data : List (Text × Datum)}
  (numbers : ∀ entry ∈ data, ∃ x, entry.2 = .number x ∧ x.isFinite = true)

include numbers

/-- **What becomes of the lexemes behind a place**, where `p` was passed up to the last literal, and `k`
is what stays behind it. -/
theorem exists_lexes_of_substitutes {p k x : Text} {done ps : List (Piece Text)}
    {passed ls : List Lexeme}
    (h : Substitutes (dataLiterals data) (lastOr none (p ++ k)) x [] ps)
    (clear : ∀ qs literal n rs, done ++ ps = qs ++ .found literal n :: rs →
      Clear (p ++ (k ++ x)) (lengthOf qs) n literal)
    (size : lengthOf done = p.length + k.length) (lexesp : Lexes p passed)
    (lexes : Lexes (k ++ x) ls) (apart : (passed ++ ls).IsChain Apart) :
    ∃ ms, Lexes (k ++ ps.flatMap Piece.text) ms ∧ Keeps ls ms := by
  generalize before' : lastOr none (p ++ k) = before at h
  generalize rest' : ([] : Text) = rest at h
  induction h generalizing p k done passed ls with
  | nil => exact ⟨ls, by simpa using lexes, .refl apart.right_of_append⟩
  | @keep before c x rest ps _ ih =>
    rw [List.append_cons k] at clear lexes
    rw [List.append_cons done] at clear
    have size' : lengthOf (done ++ [.kept c]) = p.length + (k ++ [c]).length := by
      simp [size, Nat.add_assoc]
    have last : lastOr none (p ++ (k ++ [c])) = some c := by
      rw [← List.append_assoc, lastOr_concat]
    have longer := ih clear size' lexesp lexes apart last rest'
    simpa [Piece.text] using longer
  | @key before n literal x rest ps mem nonempty start stop _ ih =>
    subst rest' before'
    rw [List.append_nil] at stop
    have boundary : k ≠ [] → isBoundary k.getLast? n.head? = true := by
      intro some
      rwa [lastOr_none, List.getLast?_append_of_ne_nil _ some] at start
    have clear' := clear done literal n.length ps rfl
    rw [size] at clear'
    obtain ⟨front, key, back, rfl, hk, hn, hx, plain, word⟩ :=
      clear'.exists_lexes nonempty boundary stop lexesp lexes apart
    obtain ⟨⟨m, d⟩, entry, same⟩ := List.mem_map.mp mem
    obtain ⟨v, number, finite⟩ := numbers _ entry
    obtain rfl : d = .number v := number
    obtain ⟨rfl, rfl⟩ := Prod.mk.inj same
    have chain : (passed ++ (front ++ key) ++ back).IsChain Apart := by simpa using apart
    have lexesp' : Lexes (p ++ (k ++ m)) (passed ++ (front ++ key)) :=
      lexesp.append (hk.append hn chain.left_of_append.right_of_append) chain.left_of_append
    have size' : lengthOf (done ++ [.found (Datum.literal (.number v)) m.length]) =
        (p ++ (k ++ m)).length + ([] : Text).length := by
      simp [size, Nat.add_assoc]
    have last : lastOr none (p ++ (k ++ m) ++ []) = lastOr (lastOr none (p ++ k)) m := by
      rw [List.append_nil, ← List.append_assoc, lastOr_append none (p ++ k)]
    have places : p ++ (k ++ (m ++ x)) = p ++ (k ++ m) ++ ([] ++ x) := by simp
    rw [places, List.append_cons] at clear
    obtain ⟨ms, lexes', keeps⟩ := ih clear size' lexesp' hx chain last rfl
    have kept := Keeps.literal finite apart.right_of_append plain word keeps
    have parts : List.Forall₂ Lexes [k, Datum.literal (.number v), ps.flatMap Piece.text]
        [front, (Datum.form (.number v)).lexemes, ms] :=
      .cons hk (.cons (Datum.lexes_literal finite) (.cons lexes' .nil))
    refine ⟨_, ?_, kept⟩
    simpa [Piece.text] using Lexes.flatten parts (by simpa using kept.apart)

end

/-- **The numbers of a formula survive inlining.**  Whatever the names of the variables are, a formula
is cut into tokens also with numbers in their place, and its own numbers are still among them, in
order, as long as all that is put in leaves numbers alone. -/
theorem numbers_inlineLiterals {data : List (Text × Datum)} {s : Text} {e : Expr}
    (read : parsed s = .ok e) (commas : CommasApart s)
    (numbers : ∀ entry ∈ data, ∃ x, entry.2 = .number x ∧ x.isFinite = true)
    (clear : AllClear (dataLiterals data) s) :
    ∃ old new, Lexer.scan s = .ok old ∧
      Lexer.scan (inlineLiterals (dataLiterals data) s) = .ok new ∧
      (numbersAmong (old.tokens.map Token.lexeme)).Sublist
        (numbersAmong (new.tokens.map Token.lexeme)) := by
  obtain ⟨ls, lexes, leads⟩ := exists_parsed_iff.mp ⟨e, read⟩
  have pieces : Substitutes (dataLiterals data) (lastOr none ([] ++ [])) s []
      (variablePieces (dataLiterals data) s) := substitutes_variablePieces _ s
  have clear' : ∀ qs literal n rs, [] ++ variablePieces (dataLiterals data) s =
      qs ++ .found literal n :: rs → Clear ([] ++ ([] ++ s)) (lengthOf qs) n literal := clear
  obtain ⟨ms, lexes', keeps⟩ :=
    exists_lexes_of_substitutes numbers pieces clear' rfl .nil lexes leads.apart
  rw [List.nil_append, ← inlineLiterals_eq_flatMap _ commas] at lexes'
  obtain ⟨old, scans, rfl⟩ := Lexer.lexes_iff_scan.mp lexes
  obtain ⟨new, scans', rfl⟩ := Lexer.lexes_iff_scan.mp lexes'
  exact ⟨old, new, scans, scans', keeps.numbers⟩

/-- A name may take several tokens. -/
theorem numbers_inlineLiterals_of_sum :
    let data : List (Text × Datum) := [("X+Y".toList, .number (-3))]
    inlineLiterals (dataLiterals data) "X+Y*2".toList = "(-3)*2".toList ∧
      ∃ new, Lexer.scan (inlineLiterals (dataLiterals data) "X+Y*2".toList) = .ok new ∧
        [2].Sublist (numbersAmong (new.tokens.map Token.lexeme)) := by
  intro data
  let ls : List Lexeme := [.name ['X'], .symbol (.operator .plus), .name ['Y'],
    .symbol (.operator .times), .number 2]
  have leads : Walk.start.Leads ls := ⟨.joint, rfl, .inr rfl⟩
  have lexes : Lexes "X+Y*2".toList ls := by
    have name (c : Char) (letter : c.isAlpha = true) : Lexes [c] [.name [c]] :=
      (IsName.spells ⟨c, [], rfl, letter, nofun⟩).lexes
    have number : Spells ['2'] (.number 2) [] := .number rfl rfl (by decide +kernel)
    have parts : List.Forall₂ Lexes [['X'], ['+'], ['Y'], ['*'], ['2']] (ls.map fun l => [l]) :=
      .cons (name 'X' (by decide)) (.cons (Lexer.lexes_symbol rfl) (.cons (name 'Y' (by decide))
        (.cons (Lexer.lexes_symbol rfl) (.cons number.lexes .nil))))
    exact Lexes.flatten parts leads.apart
  obtain ⟨e, read⟩ := exists_parsed_iff.mpr ⟨ls, lexes, leads⟩
  have commas : CommasApart "X+Y*2".toList := by
    rintro d e ⟨x, y, whole⟩ -
    have mem : ',' ∈ "X+Y*2".toList := by simp [← whole]
    exact absurd mem (by decide)
  have pieces : variablePieces (dataLiterals data) "X+Y*2".toList =
      .found "(-3)".toList 3 :: "*2".toList.map .kept := by decide +kernel
  have clear : AllClear (dataLiterals data) "X+Y*2".toList := by
    intro ps literal n qs cut
    rw [pieces] at cut
    obtain ⟨rfl, rfl, rfl⟩ : ps = [] ∧ literal = "(-3)".toList ∧ n = 3 := by
      cases ps with
      | nil =>
        obtain ⟨found, -⟩ := List.cons.inj cut
        cases found
        exact ⟨rfl, rfl, rfl⟩
      | cons p ps =>
        have kept : Piece.found literal n ∈ "*2".toList.map .kept := by
          rw [(List.cons.inj cut).2]
          simp
        simp at kept
    refine ⟨fun x sp l y whole spelled value => ?_, fun digits => absurd rfl digits⟩
    -- a value would begin in the sum, where no character starts one
    refine .inr (Nat.le_of_not_lt fun inside => ?_)
    obtain ⟨-, -, -, spells, -⟩ := spelled
    obtain ⟨c, cs, rfl⟩ := List.exists_cons_of_ne_nil spells.ne_nil
    have first : "X+Y*2".toList[x.length]? = some c := by rw [whole]; simp
    have none : ∀ k < 3, "X+Y*2".toList[k]?.any Lexer.startsValue = false := by decide
    have other := none x.length inside
    rw [first, Option.any_some, spells.startsValue value] at other
    cases other
  obtain ⟨_, new, scans, inlined, sublist⟩ := numbers_inlineLiterals read commas
    (List.forall_mem_singleton.mpr ⟨-3, rfl, by decide +kernel⟩) clear
  obtain ⟨old, scans', tokens⟩ := Lexer.lexes_iff_scan.mp lexes
  obtain rfl := Except.ok.inj (scans'.symm.trans scans)
  rw [tokens] at sublist
  exact ⟨by decide +kernel, new, inlined, sublist⟩

/-- A name of digits takes a number of the formula away. -/
example : inlineLiterals (dataLiterals [(['5'], .number 7)]) "X*5".toList = "X*7".toList := by
  decide +kernel

end Haulage
