/-
# Spelling out a formula makes few new words

A shorthand is spelled out with the arguments of its call, each as it stands, with operators and
parentheses between them, and with numbers and `round`.  So the words of a formula that was spelled
out are words of the formula, or start with a digit, or are `round`, or are what a tier without a
finite bound is written with, `inf` and `nan` (`tame_expand`).

A line break behind a backslash is followed through the passes as well, since text literals are found
in another way where there is one; none comes about.  Texts with neither are `Tame`, and every search
is led through them call by call (`TakesCalls.tame_piecesFrom`).
-/
import Haulage.Proofs.Formula.Numeral
import Haulage.Proofs.Shorthand.Pass
import Haulage.Proofs.Text.Words
import Haulage.Proofs.Value.Scalar

namespace Haulage

/-! ## 1. Tame texts -/

/-- Does a backslash stand in front of a line break? -/
def BreakEscaped (s : Text) : Prop := ['\\', '\n'] <:+: s

theorem not_breakEscaped {s : Text} (none : '\\' ∉ s) : ¬ BreakEscaped s :=
  fun h => none (h.mem List.mem_cons_self)

theorem BreakEscaped.append_cases {x y : Text} (h : BreakEscaped (x ++ y)) :
    BreakEscaped x ∨ BreakEscaped y ∨ (x.getLast? = some '\\' ∧ y.head? = some '\n') := by
  obtain ⟨a, b, whole⟩ := h
  rw [List.append_assoc] at whole
  rcases List.append_eq_append_iff.mp whole with ⟨c, rfl, behind⟩ | ⟨c, rfl, rfl⟩
  · match c, behind with
    | [], behind => exact .inr (.inl ⟨[], b, behind.symm ▸ rfl⟩)
    | [_], behind =>
      obtain ⟨rfl, rfl⟩ : '\\' = _ ∧ '\n' :: b = y := by simpa using behind
      exact .inr (.inr ⟨by simp, rfl⟩)
    | _ :: _ :: c, behind =>
      obtain ⟨rfl, rfl, rfl⟩ : '\\' = _ ∧ '\n' = _ ∧ b = c ++ y := by simpa using behind
      exact .inl ⟨a, c, by simp⟩
  · exact .inr (.inl ⟨c, b, by simp⟩)

/-- Are all words of the text of the kind, and does no backslash stand in front of a line break? -/
structure Tame (P : Text → Prop) (s : Text) : Prop where
  words : AllWords P s
  breaks : ¬ BreakEscaped s

/-- Does the text hold no character of a word, no backslash and no line break? -/
def Inert (g : Text) : Prop := ∀ c ∈ g, isNameChar c = false ∧ c ≠ '\\' ∧ c ≠ '\n'

instance (g : Text) : Decidable (Inert g) := inferInstanceAs (Decidable (∀ _ ∈ _, _))

namespace Tame

variable {P : Text → Prop} {x y g s : Text}

theorem of_part (h : Tame P s) (part : Part x s) : Tame P x :=
  ⟨h.words.of_part part, fun escaped => h.breaks (escaped.trans part.isInfix)⟩

theorem append (hx : Tame P x) (hy : Tame P y) (cut : NoCut x y)
    (apart : x.getLast? ≠ some '\\' ∨ y.head? ≠ some '\n') : Tame P (x ++ y) := by
  refine ⟨hx.words.append hy.words cut, fun escaped => ?_⟩
  rcases escaped.append_cases with h | h | ⟨last, first⟩
  · exact hx.breaks h
  · exact hy.breaks h
  · exact apart.elim (fun other => other last) fun other => other first

theorem of_inert (h : Inert g) : Tame P g :=
  ⟨.of_wordless fun c mem => (h c mem).1, not_breakEscaped fun mem => (h _ mem).2.1 rfl⟩

theorem of_word {w : Text} (inside : ∀ c ∈ w, isNameChar c = true) (h : P w) : Tame P w :=
  ⟨.of_word inside h, not_breakEscaped fun mem => absurd (inside _ mem) (by decide)⟩

theorem append_inert (hx : Tame P x) (inert : Inert g) : Tame P (x ++ g) := by
  cases g with
  | nil => rwa [List.append_nil]
  | cons c g =>
    obtain ⟨name, -, line⟩ := inert c List.mem_cons_self
    exact hx.append (.of_inert inert) (.inr name) (.inr fun first => line (Option.some.inj first))

theorem inert_append (hx : Tame P x) (inert : Inert g) : Tame P (g ++ x) := by
  rcases List.eq_nil_or_concat' g with rfl | ⟨g, c, rfl⟩
  · exact hx
  · obtain ⟨name, slash, -⟩ := inert c (by simp)
    refine append (.of_inert inert) hx (.inl (by simpa using name)) (.inl ?_)
    simpa using slash

/-- Two texts with something between them that no word goes through. -/
theorem glue (hx : Tame P x) (hy : Tame P y) (inert : Inert g) (nonempty : g ≠ []) :
    Tame P (x ++ (g ++ y)) := by
  obtain ⟨c, cs, rfl⟩ := List.exists_cons_of_ne_nil nonempty
  obtain ⟨name, -, line⟩ := inert c List.mem_cons_self
  exact hx.append (hy.inert_append inert) (.inr name)
    (.inr fun first => line (Option.some.inj first))

end Tame

/-- May the text stand in place of a call, with a parenthesis or a word of its own at the end? -/
structure Spliceable (P : Text → Prop) (g : Text) : Prop where
  tame : Tame P g
  start : ∃ c, g.head? = some c ∧ c ≠ '\n'
  finish : ∀ y, Tame P y → Tame P (g ++ y)

namespace Spliceable

variable {P : Text → Prop} {m w : Text}

theorem parens (h : Tame P m) : Spliceable P ('(' :: (m ++ [')'])) := by
  have inside : Tame P (['('] ++ (m ++ [')'])) :=
    (h.append_inert (by decide)).inert_append (by decide)
  refine ⟨inside, ⟨'(', rfl, by decide⟩, fun y hy => ?_⟩
  have last : ('(' :: (m ++ [')'])).getLast? = some ')' := by
    rw [← List.cons_append, List.getLast?_concat]
  refine inside.append hy (.inl ?_) (.inl ?_)
  · rw [List.singleton_append, last]
    exact (by decide : isNameChar ')' = false)
  · rw [List.singleton_append, last]
    decide

theorem digits (numeric : ∀ n, Numeric n → P n) (inside : Digits w) (nonempty : w ≠ []) :
    Spliceable P w := by
  obtain ⟨c, cs, rfl⟩ := List.exists_cons_of_ne_nil nonempty
  have like : ∀ d ∈ c :: cs, isDigitLike d = true := fun d mem => isDigitLike_of_isDigit (inside d mem)
  have name : ∀ d ∈ c :: cs, isNameChar d = true := fun d mem =>
    isNameChar_of_isDigitLike (like d mem)
  have first : Numeric (c :: cs) := like c List.mem_cons_self
  refine ⟨.of_word name (numeric _ first), ⟨c, rfl, ?_⟩, fun y hy => ⟨?_, fun escaped => ?_⟩⟩
  · rintro rfl
    exact absurd (like _ List.mem_cons_self) (by decide)
  · exact .append_digits numeric name first hy.words
  · rcases escaped.append_cases with h | h | ⟨last, -⟩
    · exact absurd (name _ (h.mem List.mem_cons_self)) (by decide)
    · exact hy.breaks h
    · exact absurd (name _ (List.mem_of_getLast? last)) (by decide)

theorem integer (numeric : ∀ n, Numeric n → P n) (n : Int) : Spliceable P (integerText n) := by
  have size := digits numeric (.digitsOf n.natAbs) (digitsOf_ne_nil n.natAbs)
  rw [integerText]
  split
  · have minus : Inert ['-'] := by decide
    refine ⟨size.tame.inert_append minus, ⟨'-', rfl, by decide⟩, fun y hy => ?_⟩
    exact (size.finish y hy).inert_append minus
  · exact size

end Spliceable

/-! ## 2. A search that spells out -/

section Search

variable {P : Text → Prop} {find : Finder Text}

/-- Where something begins in a text, it begins at a first place. -/
theorem quiet_or_found {β : Type} (probe : Option Char → Char → Text → Option β)
    (before : Option Char) (t : Text) :
    Quiet probe before t [] ∨ ∃ k c cs f, t = k ++ c :: cs ∧ Quiet probe before k (c :: cs) ∧
      probe (lastOr before k) c cs = some f := by
  induction t generalizing before with
  | nil => exact .inl trivial
  | cons c cs ih =>
    cases found : probe before c cs with
    | some f => exact .inr ⟨[], c, cs, f, rfl, trivial, found⟩
    | none =>
      rcases ih (some c) with quiet | ⟨k, d, ds, f, rfl, quiet, found'⟩
      · exact .inl ⟨by rwa [List.append_nil], quiet⟩
      · exact .inr ⟨c :: k, d, ds, f, rfl, ⟨found, quiet⟩, by rwa [lastOr_cons]⟩

/-- Does every find take a call, from the start of a word to a parenthesis, and put something there
that fits? -/
def Finder.TakesCalls (P : Text → Prop) (find : Finder Text) : Prop :=
  ∀ before c cs f, find before c cs = some f → inWord before = false ∧
    (∃ front rest, cs = front ++ rest ∧ front.length = f.more ∧ (c :: front).getLast? = some ')') ∧
    (Tame P (c :: cs) → Spliceable P f.content)

/-- **A search that spells out calls leaves a text tame.** -/
theorem Finder.TakesCalls.tame_piecesFrom (h : find.TakesCalls P) (t : Text) {before : Option Char}
    (outside : inWord before = false) (tame : Tame P t) :
    Tame P ((find.piecesFrom before 0 t).flatMap Piece.text) := by
  induction size : t.length using Nat.strong_induction_on generalizing t before with
  | _ n ih =>
  subst size
  rcases quiet_or_found find before t with quiet | ⟨k, c, cs, ⟨_, g⟩, rfl, quiet, found⟩
  · have same := Finder.piecesFrom_append_of_quiet quiet
    rw [List.append_nil, Finder.piecesFrom, List.append_nil] at same
    rwa [same, flatMap_text_map_kept]
  · obtain ⟨start, ⟨front, rest, rfl, rfl, last⟩, content⟩ := h _ _ _ _ found
    have cut : inWord k.getLast? = false := by
      rw [lastOr] at start
      cases k using List.reverseRecOn with
      | nil => rfl
      | append_singleton k d => simpa using start
    have close : inWord (c :: front).getLast? = false := by
      rw [last]
      exact (by decide : isNameChar ')' = false)
    have call : Tame P (c :: (front ++ rest)) := tame.of_part (.of_append_right (.inl cut))
    have kept : Tame P k := tame.of_part (.of_append_left (.inl cut))
    have fits : Spliceable P g := content call
    have behind : inWord (lastOr (lastOr before k) (c :: front)) = false := by
      rw [lastOr, last]
      exact (by decide : isNameChar ')' = false)
    have later : Tame P rest := by
      rw [← List.cons_append] at call
      exact call.of_part (.of_append_right (.inl close))
    have more := ih _ (by simp; omega) rest behind later rfl
    rw [Finder.piecesFrom_append_of_quiet quiet, ← List.cons_append,
      Finder.piecesFrom_of_found found, List.flatMap_append, flatMap_text_map_kept,
      List.flatMap_cons]
    obtain ⟨d, first, line⟩ := fits.start
    refine kept.append (fits.finish _ more) (.inl cut) (.inr ?_)
    rw [Piece.text]
    cases g with
    | nil => cases first
    | cons e g =>
      obtain rfl : e = d := Option.some.inj first
      simpa using line

end Search

/-! ## 3. What numbers are written with -/

/-- Is it a word that spelling out may make: one that starts with a digit, or `round`, `inf` or
`nan`? -/
def IsSpelling (n : Text) : Prop := Numeric n ∨ n ∈ ["round".toList, "inf".toList, "nan".toList]

/-- Does the kind take in every word that spelling out may make? -/
def TakesSpellings (P : Text → Prop) : Prop := ∀ n, IsSpelling n → P n

namespace TakesSpellings

variable {P : Text → Prop}

theorem numeric (h : TakesSpellings P) : ∀ n, Numeric n → P n := fun n first => h n (.inl first)

theorem round (h : TakesSpellings P) : P "round".toList := h _ (.inr (by simp))

theorem inf (h : TakesSpellings P) : P "inf".toList := h _ (.inr (by simp))

theorem nan (h : TakesSpellings P) : P "nan".toList := h _ (.inr (by simp))

end TakesSpellings

section Numbers

variable {P : Text → Prop} {w : Text}

theorem isNameChar_of_digits (digits : Digits w) : ∀ c ∈ w, isNameChar c = true := fun c mem =>
  isNameChar_of_isDigitLike (isDigitLike_of_isDigit (digits c mem))

/-- A row of digits is a word that starts with one, a mark behind it or not. -/
theorem Tame.digits_append (numeric : ∀ n, Numeric n → P n) (digits : Digits w) (nonempty : w ≠ [])
    {mark : Text} (inside : ∀ c ∈ mark, isNameChar c = true) : Tame P (w ++ mark) := by
  obtain ⟨c, w, rfl⟩ := List.exists_cons_of_ne_nil nonempty
  refine .of_word (List.forall_mem_append.mpr ⟨isNameChar_of_digits digits, inside⟩)
    (numeric _ ?_)
  exact isDigitLike_of_isDigit (digits c List.mem_cons_self)

theorem Tame.digits (numeric : ∀ n, Numeric n → P n) (digits : Digits w) : Tame P w := by
  by_cases empty : w = []
  · subst empty
    exact .of_inert (by decide)
  · simpa using digits_append numeric digits empty (List.forall_mem_nil _)

/-- Behind the digits an exponent has no word of its own but its digits. -/
theorem Tame.exponentPart (numeric : ∀ n, Numeric n → P n) (digits : Digits w) (nonempty : w ≠ [])
    (e : Int) : Tame P (w ++ floatNotation.exponentPart e) := by
  have power : Digits (List.replicate (2 - (digitsOf e.natAbs).length) '0' ++ digitsOf e.natAbs) :=
    (Digits.replicate _).append (.digitsOf _)
  have mark : ∀ c ∈ ['e'], isNameChar c = true := by decide
  have front : Tame P (w ++ ['e']) := .digits_append numeric digits nonempty mark
  have sign : Inert [if e < 0 then '-' else '+'] := by
    split <;> decide
  simpa [NumberNotation.exponentPart, floatNotation] using
    front.glue (Tame.digits numeric power) sign (List.cons_ne_nil _ _)

theorem Tame.pointed (numeric : ∀ n, Numeric n → P n) (digits : Digits w) (place : Int) :
    Tame P (floatNotation.pointed w place) := by
  have point : Inert ['.'] := by decide
  have row {w : Text} (digits : Digits w) : Tame P w := .digits numeric digits
  have zero : Digits ['0'] := by decide
  unfold NumberNotation.pointed
  split
  · exact (row zero).glue (row ((Digits.replicate _).append digits)) point (List.cons_ne_nil _ _)
  · split
    · have := (row (digits.append (.replicate (place.toNat - w.length)))).glue (row zero) point
        (List.cons_ne_nil _ _)
      simpa [floatNotation] using this
    · have front : Digits (w.take place.toNat) := fun c mem => digits c (List.mem_of_mem_take mem)
      have back : Digits (w.drop place.toNat) := fun c mem => digits c (List.mem_of_mem_drop mem)
      exact (row front).glue (row back) point (List.cons_ne_nil _ _)

theorem Tame.write (numeric : ∀ n, Numeric n → P n) (d : Scientific) :
    Tame P (floatNotation.write d) := by
  have digits := Digits.digitsOf d.coefficient
  have nonempty := digitsOf_ne_nil d.coefficient
  unfold NumberNotation.write
  dsimp only
  generalize digitsOf d.coefficient = ds at digits nonempty
  split
  · exact .pointed numeric digits _
  · match ds, digits, nonempty with
    | [c], digits, nonempty => exact .exponentPart numeric digits nonempty _
    | c :: c' :: cs, digits, _ =>
      have first : Digits [c] := fun d mem => digits d (by simp_all)
      have others : Digits (c' :: cs) := fun d mem => digits d (.tail _ mem)
      exact (Tame.digits numeric first).glue
        (.exponentPart numeric others (List.cons_ne_nil _ _) _) (by decide : Inert ['.'])
        (List.cons_ne_nil _ _)

theorem Tame.floatText (takes : TakesSpellings P) (x : Float) : Tame P (floatText x) := by
  unfold Haulage.floatText
  split
  · exact .of_word (by decide) takes.nan
  · have size : Tame P (if x.isInf then "inf".toList else floatNotation.write (shortest x)) := by
      split
      · exact .of_word (by decide) takes.inf
      · exact .write takes.numeric _
    dsimp only
    split
    · exact size.inert_append (by decide : Inert ['-'])
    · exact size

/-- **The words of a number** start with a digit, or say that it is not finite. -/
theorem Tame.numberText (takes : TakesSpellings P) (x : Float) : Tame P (numberText x) := by
  unfold Haulage.numberText
  split
  · split
    · exact (Spliceable.integer takes.numeric _).tame
    · exact .floatText takes x
  · exact .floatText takes x

theorem Tame.text (takes : TakesSpellings P) : (n : Number) → Tame P n.text
  | .int n => (Spliceable.integer takes.numeric n).tame
  | .float x => .numberText takes x

theorem Tame.literal (takes : TakesSpellings P) (n : Number) : Tame P n.literal := by
  rw [Number.literal]
  split
  · exact (Spliceable.parens (.text takes n)).tame
  · exact .text takes n

end Numbers

/-! ## 4. Arguments -/

theorem Part.strip (s : Text) : Part s.strip s := by
  obtain ⟨f, g, whole, front, back⟩ := exists_strip s
  have before : inWord f.getLast? = false := by
    cases last : f.getLast? with
    | none => rfl
    | some c => exact isNameChar_of_isBlank (front c (List.mem_of_getLast? last))
  have behind : inWord g.head? = false := by
    cases g with
    | nil => rfl
    | cons c g => exact isNameChar_of_isBlank (back c List.mem_cons_self)
  exact ⟨f, g, whole, .inl before, .inr behind⟩

/-- A text falls apart at separators into parts, the first of which it starts with. -/
theorem parts_of_splitAtDepth {isSeparator : Char → Bool}
    (wordless : ∀ c, isSeparator c = true → isNameChar c = false) {depth : Int} {s x : Text}
    {xs : List Text} (h : splitAtDepth isSeparator depth s = x :: xs) :
    (∃ b, s = x ++ b ∧ inWord b.head? = false) ∧
      ∀ y ∈ xs, ∃ a b, s = a ++ (y ++ b) ∧ a ≠ [] ∧ inWord a.getLast? = false ∧
        inWord b.head? = false := by
  induction s generalizing depth x xs with
  | nil =>
    obtain ⟨rfl, rfl⟩ : [] = x ∧ [] = xs := by simpa [splitAtDepth] using h
    exact ⟨⟨[], rfl, rfl⟩, by simp⟩
  | cons c cs ih =>
    obtain ⟨part, parts, rest⟩ :=
      List.exists_cons_of_ne_nil (splitAtDepth_ne_nil isSeparator (depthAfter depth c) cs)
    obtain ⟨⟨b, rfl, stop⟩, others⟩ := ih rest
    rw [splitAtDepth, rest] at h
    split at h
    · rename_i separates
      obtain ⟨rfl, rfl⟩ := List.cons.inj h
      have outside := wordless c (by simp_all)
      refine ⟨⟨c :: (part ++ b), rfl, outside⟩, fun y mem => ?_⟩
      rcases List.mem_cons.mp mem with rfl | mem
      · exact ⟨[c], b, rfl, List.cons_ne_nil _ _, outside, stop⟩
      · obtain ⟨a, b', whole, nonempty, front, back⟩ := others y mem
        refine ⟨c :: a, b', by rw [whole]; rfl, List.cons_ne_nil _ _, ?_, back⟩
        rwa [List.getLast?_cons_of_ne_nil nonempty]
    · obtain ⟨rfl, rfl⟩ := List.cons.inj h
      refine ⟨⟨b, rfl, stop⟩, fun y mem => ?_⟩
      obtain ⟨a, b', whole, nonempty, front, back⟩ := others y mem
      refine ⟨c :: a, b', by rw [whole]; rfl, List.cons_ne_nil _ _, ?_, back⟩
      rwa [List.getLast?_cons_of_ne_nil nonempty]

/-- An argument was cut out between words. -/
theorem part_of_mem_semicolonArguments {body x : Text} (h : x ∈ semicolonArguments body) :
    Part x body := by
  obtain ⟨y, mem, rfl⟩ := List.mem_map.mp h
  refine (Part.strip y).trans ?_
  obtain ⟨first, others, split⟩ :=
    List.exists_cons_of_ne_nil (splitAtDepth_ne_nil (· == ';') 0 body)
  have wordless : ∀ c, (c == ';') = true → isNameChar c = false := by
    rintro c same
    obtain rfl := eq_of_beq same
    decide
  obtain ⟨⟨b, whole, stop⟩, parts⟩ := parts_of_splitAtDepth wordless split
  rw [split] at mem
  rcases List.mem_cons.mp mem with rfl | mem
  · exact whole ▸ .of_append_left (.inr stop)
  · obtain ⟨a, b, whole, -, front, back⟩ := parts y mem
    exact ⟨a, b, whole, .inl front, .inr back⟩

/-! ## 5. What calls stand for -/

namespace Shorthand

variable {P : Text → Prop} {arguments : List Text} {content : Text}

/-- A conditional stands for a choice, under a condition that is not empty. -/
theorem exists_of_spellConditional (h : spellConditional arguments = some content) :
    ∃ condition whenTrue whenFalse, arguments = [condition, whenTrue, whenFalse] ∧ condition ≠ [] ∧
      content =
        '(' :: (condition ++ " ? ".toList ++ whenTrue ++ " : ".toList ++ whenFalse ++ [')']) := by
  unfold spellConditional at h
  split at h
  · rename_i condition whenTrue whenFalse
    split at h
    · cases h
    · rename_i nonempty
      refine ⟨condition, whenTrue, whenFalse, rfl, ?_, (Option.some.inj h).symm⟩
      rintro rfl
      exact nonempty rfl
  · cases h

theorem spliceable_spellConditional (tame : ∀ x ∈ arguments, Tame P x)
    (h : spellConditional arguments = some content) : Spliceable P content := by
  obtain ⟨condition, whenTrue, whenFalse, rfl, -, rfl⟩ := exists_of_spellConditional h
  have hc : Tame P condition := tame _ (by simp)
  have ht : Tame P whenTrue := tame _ (by simp)
  have hf : Tame P whenFalse := tame _ (by simp)
  have := (hc.glue (ht.glue hf (by decide : Inert " : ".toList) (by decide))
    (by decide : Inert " ? ".toList) (by decide))
  simpa using Spliceable.parens this

theorem spliceable_spellRounding (takes : TakesSpellings P) (tame : ∀ x ∈ arguments, Tame P x)
    (h : spellRounding arguments = some content) : Spliceable P content := by
  unfold spellRounding at h
  split at h
  · rename_i amount places
    split at h
    · cases h
    · obtain ⟨n, -, rfl⟩ := Option.map_eq_some_iff.mp h
      have factor : Tame P (digitsOf (Nat.pow 10 n)) := .digits takes.numeric (.digitsOf _)
      have round : Tame P "round".toList := .of_word (by decide) takes.round
      have amount : Tame P amount := tame _ (by simp)
      have := round.glue (amount.glue (factor.glue factor (by decide : Inert ") / ".toList)
        (by decide)) (by decide : Inert " * ".toList) (by decide)) (by decide : Inert ['('])
        (by decide)
      simpa using Spliceable.parens this
  · cases h

theorem tame_join : (parts : List Text) → (∀ x ∈ parts, Tame P x) →
    Tame P (Text.join " + ".toList parts)
  | [], _ => .of_inert (by decide)
  | [x], tame => tame x List.mem_cons_self
  | x :: y :: others, tame => by
    have rest := tame_join (y :: others) fun z mem => tame z (.tail _ mem)
    rw [Text.join, List.append_assoc]
    · exact (tame x List.mem_cons_self).glue rest (by decide : Inert " + ".toList) (by decide)
    · exact List.cons_ne_nil _ _

theorem spliceable_spellAverage (takes : TakesSpellings P) {most : Int}
    (tame : ∀ x ∈ arguments, Tame P x) (h : spellAverage most arguments = some content) :
    Spliceable P content := by
  unfold spellAverage at h
  split at h
  · cases h
  · obtain rfl := Option.some.inj h
    have count : Tame P (digitsOf arguments.length) := .digits takes.numeric (.digitsOf _)
    have := ((tame_join arguments tame).glue count (by decide : Inert ") / ".toList)
      (by decide)).inert_append (by decide : Inert ['('])
    simpa using Spliceable.parens this

theorem tame_choicesOf (takes : TakesSpellings P) {amount otherwise : Text} (ha : Tame P amount)
    (ho : Tame P otherwise) : (tiers : List Tier) →
    Tame P (choicesOf amount otherwise tiers) ∧
      (tiers ≠ [] → Spliceable P (choicesOf amount otherwise tiers))
  | [] => ⟨ho, fun empty => absurd rfl empty⟩
  | t :: ts => by
    have rest := (tame_choicesOf takes ha ho ts).1
    have := (ha.glue ((Tame.text takes t.threshold).glue ((Tame.text takes t.tariff).glue rest
      (by decide : Inert " : ".toList) (by decide)) (by decide : Inert " ? ".toList) (by decide))
      (by decide : Inert ") <= ".toList) (by decide)).inert_append (by decide : Inert ['('])
    have fits : Spliceable P (choicesOf amount otherwise (t :: ts)) := by
      simpa [choicesOf] using Spliceable.parens this
    exact ⟨fits.tame, fun _ => fits⟩

theorem spliceable_spellTieredRate (takes : TakesSpellings P) {most : Int}
    (tame : ∀ x ∈ arguments, Tame P x) (h : spellTieredRate most arguments = some content) :
    Spliceable P content := by
  unfold spellTieredRate at h
  split at h
  · cases h
  · rename_i amount tiers
    split at h
    · cases h
    · split at h
      · rename_i tiers' read
        unfold tierChain at h
        dsimp only at h
        split at h
        · cases h
        · rename_i highest last
          obtain rfl := Option.some.inj h
          refine (tame_choicesOf takes (tame _ List.mem_cons_self) (.text takes _) _).2 ?_
          intro empty
          simp [empty] at last
      · cases h

end Shorthand

/-! ## 6. Calls -/

section Calls

variable {P : Text → Prop} {name : Text}

/-- A call is found from its front to the parenthesis that closes it, if its rule knows what the
arguments stand for. -/
theorem spellableCalls_eq_some_iff (sn : ShorthandName name)
    {spell : List Text → Option Text} {before : Option Char} {c : Char} {cs : Text} {f : Find Text} :
    spellableCalls name spell before c cs = some f ↔ inWord before = false ∧
      ∃ word front body rest y, IsFront name word front ∧
        c :: cs = front ++ '(' :: (body ++ ')' :: rest) ∧ Grouped (fun _ => True) body ∧
        spell (semicolonArguments body) = some y ∧ f = ⟨front.length + 1 + body.length, y⟩ := by
  have behind {front inside : Text} (whole : c :: cs = front ++ '(' :: inside) :
      (c :: cs).drop (front.length + 1) = inside := by simp [whole]
  constructor
  · intro found
    unfold spellableCalls at found
    split at found
    · cases found
    · rename_i h head
      obtain ⟨outside, word, front, inside, whole, isFront, rfl⟩ := (headNamed_eq_some_iff sn).mp head
      dsimp only at found
      rw [behind whole] at found
      split at found
      · cases found
      · rename_i body closed
        obtain ⟨y, spelled, rfl⟩ := Option.map_eq_some_iff.mp found
        obtain ⟨rest, rfl⟩ := exists_of_bodyOf? closed
        exact ⟨outside, word, front, body, rest, y, isFront, whole, grouped_of_bodyOf? closed,
          spelled, rfl⟩
  · rintro ⟨outside, word, front, body, rest, y, isFront, whole, grouped, spelled, rfl⟩
    have head := (headNamed_eq_some_iff sn).mpr ⟨outside, word, front, _, whole, isFront, rfl⟩
    simp only [spellableCalls, head, behind whole, grouped.bodyOf?_eq_some, spelled, Option.map_some]

/-- An empty call is a head, blanks and a parenthesis. -/
theorem emptyCalls_eq_some_iff {before : Option Char} {c : Char} {cs : Text} {f : Find Unit} :
    emptyCalls name before c cs = some f ↔ ∃ h blanks rest, headNamed name before c cs = some h ∧
      (c :: cs).drop h.length = blanks ++ ')' :: rest ∧ (∀ b ∈ blanks, isBlank b = true) ∧
      f = ⟨h.length + blanks.length, ()⟩ := by
  constructor
  · intro found
    unfold emptyCalls at found
    split at found
    · cases found
    · rename_i h head
      dsimp only at found
      split at found
      · rename_i rest closes
        refine ⟨h, ((c :: cs).drop h.length).takeWhile isBlank, rest, head, ?_,
          fun b mem => List.all_eq_true.mp List.all_takeWhile b mem, (Option.some.inj found).symm⟩
        rw [← closes, List.takeWhile_append_dropWhile]
      · cases found
  · rintro ⟨h, blanks, rest, head, inside, blank, rfl⟩
    have other : isBlank ')' = false := by decide
    simp [emptyCalls, head, inside, List.dropWhile_append_of_pos blank,
      List.takeWhile_append_of_pos blank, other]

/-- A text without separators is one part. -/
theorem eq_of_splitAtDepth {isSeparator : Char → Bool} {depth : Int} {s part : Text}
    (h : splitAtDepth isSeparator depth s = [part]) : part = s := by
  induction s generalizing depth part with
  | nil => exact (List.singleton_inj.mp h).symm
  | cons c s ih =>
    simp only [splitAtDepth] at h
    split at h
    · exact absurd (List.cons.inj h).2 (splitAtDepth_ne_nil _ _ _)
    · split at h
      · rename_i none
        exact absurd none (splitAtDepth_ne_nil _ _ _)
      · rename_i first parts whole
        obtain ⟨rfl, rfl⟩ := List.cons.inj h
        rw [ih whole]

/-- One argument without text is a body of blanks. -/
theorem semicolonArguments_eq_blank_iff {body : Text} :
    semicolonArguments body = [[]] ↔ ∀ c ∈ body, isBlank c = true := by
  constructor
  · intro single
    obtain ⟨part, whole, nothing⟩ := List.map_eq_singleton_iff.mp single
    obtain rfl := eq_of_splitAtDepth whole
    exact strip_eq_nil_iff.mp nothing
  · intro blank
    have grouped : Grouped (· ≠ ';') body :=
      (grouped_of_blanks (fun c => @outside_of_not_mem_delimiters 0 c) blank).semicolon
    have single : semicolonArguments (Text.join ";".toList [body]) = [body].map Text.strip :=
      semicolonArguments_join (List.cons_ne_nil _ _) (List.forall_mem_singleton.mpr grouped)
    rw [Text.join] at single
    rw [single, List.map_singleton, strip_eq_nil_iff.mpr blank]

/-- A fact of the calendar stands for the call without arguments. -/
def Shorthand.spellFact (digits : Text) (arguments : List Text) : Option Text :=
  if arguments = [[]] then some digits else none

theorem Shorthand.spellFact_eq_some_iff {digits y : Text} {arguments : List Text} :
    spellFact digits arguments = some y ↔ arguments = [[]] ∧ digits = y := by
  simp [spellFact]

/-- **Filling in a fact is a rule** for calls with one argument that is blank. -/
theorem emptyCalls_eq_spellableCalls (sn : ShorthandName name) (digits : Text)
    (before : Option Char) (c : Char) (cs : Text) :
    ((emptyCalls name before c cs).map fun f => (⟨f.more, digits⟩ : Find Text)) =
      spellableCalls name (Shorthand.spellFact digits) before c cs := by
  have behind {front inside : Text} (whole : c :: cs = front ++ '(' :: inside) :
      (c :: cs).drop (front.length + 1) = inside := by simp [whole]
  refine Option.ext fun f => ?_
  rw [spellableCalls_eq_some_iff sn, Option.map_eq_some_iff]
  constructor
  · rintro ⟨_, found, rfl⟩
    obtain ⟨h, blanks, rest, head, closed, blank, rfl⟩ := emptyCalls_eq_some_iff.mp found
    obtain ⟨outside, word, front, inside, whole, isFront, rfl⟩ := (headNamed_eq_some_iff sn).mp head
    obtain rfl := (behind whole).symm.trans closed
    exact ⟨outside, word, front, blanks, rest, digits, isFront, whole,
      grouped_of_blanks (fun _ _ => trivial) blank,
      Shorthand.spellFact_eq_some_iff.mpr ⟨semicolonArguments_eq_blank_iff.mpr blank, rfl⟩, rfl⟩
  · rintro ⟨outside, word, front, body, rest, y, isFront, whole, -, spelled, rfl⟩
    obtain ⟨single, rfl⟩ := Shorthand.spellFact_eq_some_iff.mp spelled
    have head := (headNamed_eq_some_iff sn).mpr ⟨outside, word, front, _, whole, isFront, rfl⟩
    exact ⟨_, emptyCalls_eq_some_iff.mpr ⟨_, body, rest, head, behind whole,
      semicolonArguments_eq_blank_iff.mp single, rfl⟩, rfl⟩

/-- What stands between the parentheses of a call was cut out between words. -/
theorem part_of_parens (a x b : Text) : Part x (a ++ '(' :: (x ++ ')' :: b)) :=
  ⟨a ++ ['('], ')' :: b, by simp, .inl (by simp; decide),
    .inr (by decide : isNameChar ')' = false)⟩

theorem takesCalls_spellableCalls (sn : ShorthandName name) {spell : List Text → Option Text}
    (fits : ∀ arguments content, (∀ x ∈ arguments, Tame P x) → spell arguments = some content →
      Spliceable P content) : (spellableCalls name spell).TakesCalls P := by
  intro before c cs f found
  obtain ⟨start, word, front, body, rest, content, isFront, whole, -, spelled, rfl⟩ :=
    (spellableCalls_eq_some_iff sn).mp found
  obtain ⟨d, front, rfl⟩ := List.exists_cons_of_ne_nil (isFront.ne_nil sn.ne_nil)
  obtain ⟨rfl, rfl⟩ := List.cons.inj whole
  refine ⟨start, ⟨front ++ '(' :: (body ++ [')']), rest, by simp, ?_, ?_⟩, fun tame => ?_⟩
  · simp
    omega
  · rw [← List.cons_append, ← List.cons_append, ← List.append_assoc, List.getLast?_concat]
  · refine fits _ _ (fun x mem => ?_) spelled
    have part : Part x _ := (part_of_mem_semicolonArguments mem).trans
      (part_of_parens (c :: front) body rest)
    exact tame.of_part part

theorem takesCalls_emptyCalls (sn : ShorthandName name) {digits : Text} (fits : Spliceable P digits) :
    Finder.TakesCalls P fun before c cs =>
      (emptyCalls name before c cs).map fun f => ⟨f.more, digits⟩ := by
  simp only [emptyCalls_eq_spellableCalls sn]
  refine takesCalls_spellableCalls sn fun arguments content _ spelled => ?_
  obtain ⟨-, rfl⟩ := Shorthand.spellFact_eq_some_iff.mp spelled
  exact fits

end Calls

namespace Shorthand

variable {P : Text → Prop} {t : Text} {out : SpelledOut}

theorem tame_spellAll {find : Finder Text} (takes : find.TakesCalls P) (tame : Tame P t) :
    Tame P (spellAll find t).text :=
  takes.tame_piecesFrom t rfl tame

theorem eq_of_integerDigitsText {n : Int} {digits : Text} (h : integerDigitsText n = .ok digits) :
    digits = integerText n := by
  rw [integerDigitsText] at h
  split at h
  · cases h
  · exact (Except.ok.inj h).symm

theorem tame_fillIn (takes : TakesSpellings P) {name : String} (sn : ShorthandName name.toList)
    (fact : Except ValueFault Int) (tame : Tame P t) :
    Ensures (fun _ => True) (fun out => Tame P out.text) (fillIn name fact t) := by
  unfold fillIn
  dsimp only
  split
  · have known : Ensures (fun _ => True) (fun _ => True) fact := by
      cases fact <;> trivial
    refine known.bind fun n _ => ?_
    cases written : integerDigitsText n with
    | error f => trivial
    | ok digits =>
      obtain rfl := eq_of_integerDigitsText written
      exact tame_spellAll (takesCalls_emptyCalls sn (.integer takes.numeric n)) tame
  · exact tame

/-- **Spelling out one shorthand** makes no other words. -/
theorem tame_spellOut (takes : TakesSpellings P) (w : Surroundings) (s : Shorthand)
    (tame : Tame P t) :
    Ensures (fun _ => True) (fun out => Tame P out.text) (s.spellOut w t) := by
  have sn := s.shorthandName
  cases s with
  | conditional =>
    exact tame_spellAll (takesCalls_spellableCalls sn fun _ _ => spliceable_spellConditional) tame
  | rounding =>
    exact tame_spellAll (takesCalls_spellableCalls sn fun _ _ => spliceable_spellRounding takes) tame
  | average =>
    exact tame_spellAll (takesCalls_spellableCalls sn fun _ _ => spliceable_spellAverage takes) tame
  | weekday => exact tame_fillIn takes sn _ tame
  | month => exact tame_fillIn takes sn _ tame
  | quarter => exact tame_fillIn takes sn _ tame
  | weekend => exact tame_fillIn takes sn _ tame
  | tieredRate =>
    exact tame_spellAll (takesCalls_spellableCalls sn fun _ _ => spliceable_spellTieredRate takes) tame

end Shorthand

/-! ## 7. Passes -/

section Passes

variable {P : Text → Prop} {w : Surroundings} {t : Text}

theorem tame_expandOnce (takes : TakesSpellings P) (w : Surroundings) (tame : Tame P t) :
    Ensures (fun _ => True) (fun out => Tame P out.text) (expandOnce w t) := by
  refine Ensures.foldlM (fun _ _ => trivial) (fun done s tame _ => ?_) tame
  exact (s.tame_spellOut takes w tame).bind fun _ tame => tame

theorem tame_expandWithin (takes : TakesSpellings P) {passes : Nat} {out : Text} (tame : Tame P t)
    (h : expandWithin w passes t = .ok out) : Tame P out := by
  induction passes generalizing t with
  | zero =>
    obtain rfl := Except.ok.inj h
    exact tame
  | succ passes ih =>
    have once := tame_expandOnce takes w tame
    rw [expandWithin] at h
    split at h
    · cases h
    · rename_i next run
      rw [run] at once
      split at h
      · cases h
      · split at h
        · obtain rfl := Except.ok.inj h
          exact once
        · exact ih once h

/-- **Spelling out a formula makes few new words.** -/
theorem tame_expand (takes : TakesSpellings P) {asked : Option Int} {out : Value} (tame : Tame P t)
    (h : expand w asked (.text t) = .ok out) : ∃ s, out = .text s ∧ Tame P s := by
  by_cases empty : t = []
  · subst empty
    exact ⟨[], (Except.ok.inj h).symm, tame⟩
  · rw [expand_text empty] at h
    cases run : expandWithin w (passLimit w asked) t with
    | error f =>
      rw [run] at h
      cases h
    | ok s =>
      rw [run] at h
      exact ⟨s, (Except.ok.inj h).symm, tame_expandWithin takes tame run⟩

end Passes

end Haulage
