/-
# Parentheses in a text

Shorthands are taken apart by counting parentheses in the text as it is written.  A text is
`Grouped p` when its parentheses match and every character outside them satisfies `p`; counting
passes over such a text as a whole (`bodyOf?_append`, `splitAtDepth_append`).

What a form is written with is grouped, and no separator of arguments stands outside its parentheses
(`Form.grouped`).  So the parts between semicolons are what one expects (`forall₂_splitAtDepth`).
-/
import Haulage.Proofs.Formula.Form
import Haulage.Shorthand.Call

namespace Haulage

open Lexer (Lexes Spells)

/-! ## 1. Grouped texts -/

/-- The parentheses of the text match, and the characters outside them satisfy the predicate. -/
inductive Grouped : (Char → Prop) → Text → Prop
  | nil {p : Char → Prop} : Grouped p []
  | plain {p : Char → Prop} {c : Char} {cs : Text} (outside : p c) (notOpen : c ≠ '(')
      (notClose : c ≠ ')') (more : Grouped p cs) : Grouped p (c :: cs)
  | group {p : Char → Prop} {x y : Text} (inside : Grouped (fun _ => True) x)
      (more : Grouped p y) : Grouped p ('(' :: (x ++ ')' :: y))

namespace Grouped

variable {p q : Char → Prop} {x y : Text}

theorem mono (h : Grouped p x) (le : ∀ c, p c → q c) : Grouped q x := by
  induction h with
  | nil => exact .nil
  | plain outside notOpen notClose _ ih => exact .plain (le _ outside) notOpen notClose (ih le)
  | group inside _ _ ih => exact .group inside (ih le)

theorem append (hx : Grouped p x) (hy : Grouped p y) : Grouped p (x ++ y) := by
  induction hx with
  | nil => exact hy
  | plain outside notOpen notClose _ ih => exact .plain outside notOpen notClose (ih hy)
  | group inside _ _ ih =>
    rw [List.cons_append, List.append_assoc, List.cons_append]
    exact .group inside (ih hy)

theorem of_forall (h : ∀ c ∈ x, p c ∧ c ≠ '(' ∧ c ≠ ')') : Grouped p x := by
  induction x with
  | nil => exact .nil
  | cons c x ih =>
    obtain ⟨outside, notOpen, notClose⟩ := h c (by simp)
    exact .plain outside notOpen notClose (ih fun d hd => h d (by simp [hd]))

/-- Counting passes over a grouped text. -/
theorem bodyOf?_append (h : Grouped p x) (depth : Nat) (rest : Text) :
    bodyOf? depth (x ++ rest) = (bodyOf? depth rest).map (x ++ ·) := by
  induction h generalizing depth rest with
  | nil => simp
  | @plain _ c cs _ notOpen notClose _ ih =>
    simp only [List.cons_append, bodyOf?, beq_iff_eq, notOpen, notClose, if_false, ih,
      Option.map_map]
    rfl
  | @group _ x y inside _ ihx ihy =>
    have inner : bodyOf? (depth + 1) (x ++ ')' :: (y ++ rest)) =
        (bodyOf? depth rest).map fun s => x ++ ')' :: (y ++ s) := by
      have other : (')' == '(') = false := rfl
      rw [ihx]
      simp only [bodyOf?, ihy, Option.map_map, beq_self_eq_true, if_true, other,
        Bool.false_eq_true, if_false]
      rfl
    simp only [List.cons_append, List.append_assoc, bodyOf?, beq_self_eq_true, if_true, inner,
      Option.map_map]
    rfl

/-- The body of a call is what is grouped in front of its closing parenthesis. -/
theorem bodyOf?_eq_some (h : Grouped p x) (rest : Text) :
    bodyOf? 0 (x ++ ')' :: rest) = some x := by
  rw [h.bodyOf?_append]
  simp [bodyOf?]

/-- Only one body is grouped. -/
theorem eq_of_closed (hx : Grouped p x) (hy : Grouped q y) {r r' : Text}
    (h : x ++ ')' :: r = y ++ ')' :: r') : x = y ∧ r = r' := by
  have closed := hx.bodyOf?_eq_some r
  rw [h, hy.bodyOf?_eq_some] at closed
  obtain rfl := Option.some.inj closed
  exact ⟨rfl, (List.cons.inj (List.append_cancel_left h)).2⟩

end Grouped

/-! ## 2. What is grouped inside a text -/

/-- May the character stand anywhere in a grouped text, as far as parentheses go? -/
def Plain (t : Text) : Prop := ∀ c ∈ t, c ≠ '(' ∧ c ≠ ')'

instance (t : Text) : Decidable (Plain t) := inferInstanceAs (Decidable (∀ _ ∈ _, _))

theorem plain_of_blanks {bs : Text} (blanks : ∀ b ∈ bs, isBlank b = true) : Plain bs := fun b hb => by
  constructor <;>
  · rintro rfl
    exact absurd (blanks _ hb) (by decide)

namespace Grouped

variable {p : Char → Prop} {x y u v : Text}

/-- A grouped text does not start with a closing parenthesis, and goes on as one if it does not start
with an opening one. -/
theorem uncons {c : Char} (h : Grouped p (c :: x)) : c ≠ ')' ∧ (c ≠ '(' → Grouped p x) := by
  generalize whole : c :: x = s at h
  cases h with
  | nil => cases whole
  | plain _ _ notClose more =>
    obtain ⟨rfl, rfl⟩ := List.cons.inj whole
    exact ⟨notClose, fun _ => more⟩
  | group =>
    obtain ⟨rfl, -⟩ := List.cons.inj whole
    exact ⟨by decide, fun notOpen => absurd rfl notOpen⟩

theorem of_plain_append (h : Grouped p (x ++ y)) (plain : Plain x) : Grouped p y := by
  induction x with
  | nil => exact h
  | cons c x ih =>
    obtain ⟨first, others⟩ := List.forall_mem_cons.mp plain
    exact ih (h.uncons.2 first.1) others

theorem of_append_plain (h : Grouped p (x ++ y)) (plain : Plain y) : Grouped p x := by
  generalize whole : x ++ y = s at h
  induction h generalizing x with
  | nil =>
    obtain rfl := (List.append_eq_nil_iff.mp whole).1
    exact .nil
  | plain outside notOpen notClose _ ih =>
    cases x with
    | nil => exact .nil
    | cons d x =>
      obtain ⟨rfl, rfl⟩ := List.cons.inj whole
      exact .plain outside notOpen notClose (ih rfl)
  | @group _ x' y' inside _ _ ih =>
    cases x with
    | nil => exact .nil
    | cons d x =>
      obtain ⟨rfl, cut⟩ := List.cons.inj whole
      rcases List.append_eq_append_iff.mp cut with ⟨a, -, behind⟩ | ⟨a, rfl, behind⟩
      · exact absurd rfl (plain ')' (by simp [behind])).2
      · cases a with
        | nil =>
          rw [List.nil_append] at behind
          exact absurd rfl (plain ')' (by simp [← behind])).2
        | cons e a =>
          obtain ⟨rfl, rfl⟩ := List.cons.inj behind
          exact .group inside (ih rfl)

/-- A parenthesis that opens in a grouped text is closed in it. -/
theorem exists_close (h : Grouped p (u ++ '(' :: v)) :
    ∃ m w, v = m ++ ')' :: w ∧ Grouped (fun _ => True) m := by
  generalize whole : u ++ '(' :: v = s at h
  induction h generalizing u v with
  | nil => simp at whole
  | plain _ notOpen _ _ ih =>
    cases u with
    | nil => exact absurd (List.cons.inj whole).1.symm notOpen
    | cons d u => exact ih (List.cons.inj whole).2
  | @group _ x y inside _ ihx ihy =>
    cases u with
    | nil => exact ⟨x, y, (List.cons.inj whole).2, inside⟩
    | cons d u =>
      rcases List.append_eq_append_iff.mp (List.cons.inj whole).2 with ⟨a, rfl, behind⟩ | ⟨a, rfl, behind⟩
      · cases a with
        | nil => exact absurd (List.cons.inj behind).1 (by decide)
        | cons e a =>
          obtain ⟨rfl, rfl⟩ := List.cons.inj behind
          obtain ⟨m, w, rfl, grouped⟩ := ihx rfl
          exact ⟨m, w ++ ')' :: y, by simp, grouped⟩
      · cases a with
        | nil => exact absurd (List.cons.inj behind).1 (by decide)
        | cons e a =>
          obtain ⟨rfl, rfl⟩ := List.cons.inj behind
          exact ihy rfl

end Grouped

/-- Grouped texts with so many closing parentheses between them. -/
def ClosesAll : Nat → Text → Prop
  | 0, s => Grouped (fun _ => True) s
  | depth + 1, s => ∃ x y, s = x ++ ')' :: y ∧ Grouped (fun _ => True) x ∧ ClosesAll depth y

theorem ClosesAll.append {depth : Nat} {x s : Text} (h : ClosesAll depth s)
    (grouped : Grouped (fun _ => True) x) : ClosesAll depth (x ++ s) := by
  cases depth with
  | zero => exact grouped.append h
  | succ depth =>
    obtain ⟨y, z, rfl, grouped', more⟩ := h
    exact ⟨x ++ y, z, by simp, grouped.append grouped', more⟩

theorem ClosesAll.group {depth : Nat} {s : Text} (h : ClosesAll (depth + 1) s) :
    ClosesAll depth ('(' :: s) := by
  obtain ⟨x, y, rfl, grouped, more⟩ := h
  have group : Grouped (fun _ => True) ('(' :: (x ++ [')'])) := .group grouped .nil
  simpa using more.append group

theorem closesAll_of_bodyOf? {depth : Nat} {t body : Text} (h : bodyOf? depth t = some body) :
    ClosesAll depth body := by
  induction t generalizing depth body with
  | nil => cases h
  | cons c cs ih =>
    unfold bodyOf? at h
    split at h
    · rename_i opens
      obtain rfl := eq_of_beq opens
      obtain ⟨inner, found, rfl⟩ := Option.map_eq_some_iff.mp h
      exact (ih found).group
    · rename_i notOpen
      split at h
      · rename_i closes
        obtain rfl := eq_of_beq closes
        cases depth with
        | zero =>
          obtain rfl := Option.some.inj h
          exact .nil
        | succ depth =>
          obtain ⟨inner, found, rfl⟩ := Option.map_eq_some_iff.mp h
          exact ⟨[], inner, rfl, .nil, ih found⟩
      · rename_i notClose
        obtain ⟨inner, found, rfl⟩ := Option.map_eq_some_iff.mp h
        exact (ih found).append (x := [c])
          (.plain trivial (by simpa using notOpen) (by simpa using notClose) .nil)

/-- **The body of a call is grouped.** -/
theorem grouped_of_bodyOf? {t body : Text} (h : bodyOf? 0 t = some body) :
    Grouped (fun _ => True) body := closesAll_of_bodyOf? h

/-- A body is closed by a parenthesis behind it. -/
theorem exists_of_bodyOf? {depth : Nat} {t body : Text} (h : bodyOf? depth t = some body) :
    ∃ rest, t = body ++ ')' :: rest := by
  induction t generalizing depth body with
  | nil => cases h
  | cons c cs ih =>
    have more {depth : Nat} (h : (bodyOf? depth cs).map (c :: ·) = some body) :
        ∃ rest, c :: cs = body ++ ')' :: rest := by
      obtain ⟨inner, found, rfl⟩ := Option.map_eq_some_iff.mp h
      obtain ⟨rest, rfl⟩ := ih found
      exact ⟨rest, rfl⟩
    unfold bodyOf? at h
    split at h
    · exact more h
    · split at h
      · rename_i close
        obtain rfl := eq_of_beq close
        cases depth with
        | zero =>
          obtain rfl := Option.some.inj h
          exact ⟨cs, rfl⟩
        | succ depth => exact more h
      · exact more h

/-! ## 3. Parts between separators -/

/-- The lists with something in front of the first. -/
def prefixFirst {α : Type} (x : List α) : List (List α) → List (List α)
  | [] => [x]
  | part :: parts => (x ++ part) :: parts

theorem prefixFirst_append {α : Type} (x y : List α) (parts : List (List α)) :
    prefixFirst (x ++ y) parts = prefixFirst x (prefixFirst y parts) := by
  cases parts <;> simp [prefixFirst]

theorem splitAtDepth_cons {isSeparator : Char → Bool} {depth : Int} {c : Char} {cs : Text}
    (h : (isSeparator c && depthAfter depth c == 0) = false) :
    splitAtDepth isSeparator depth (c :: cs) =
      prefixFirst [c] (splitAtDepth isSeparator (depthAfter depth c) cs) := by
  simp only [splitAtDepth, h]
  cases splitAtDepth isSeparator (depthAfter depth c) cs <;> rfl

/-- Nothing is cut off a grouped text that has no separator outside its parentheses. -/
theorem Grouped.splitAtDepth_append {p : Char → Prop} {x : Text} (h : Grouped p x)
    {isSeparator : Char → Bool} (close : isSeparator ')' = false) {depth : Int}
    (positive : 0 ≤ depth) (none : depth = 0 → ∀ c, p c → isSeparator c = false) (rest : Text) :
    splitAtDepth isSeparator depth (x ++ rest) =
      prefixFirst x (splitAtDepth isSeparator depth rest) := by
  induction h generalizing depth rest with
  | nil =>
    obtain ⟨part, parts, whole⟩ :=
      List.exists_cons_of_ne_nil (splitAtDepth_ne_nil isSeparator depth rest)
    simp [whole, prefixFirst]
  | @plain _ c cs outside notOpen notClose _ ih =>
    have same : depthAfter depth c = depth := by simp [depthAfter, notOpen, notClose]
    have inside : (isSeparator c && depthAfter depth c == 0) = false := by
      by_cases zero : depth = 0
      · simp [none zero c outside]
      · simp [same, zero]
    rw [List.cons_append, splitAtDepth_cons inside, same, ih positive none,
      ← prefixFirst_append]
    rfl
  | @group _ x y _ _ ihx ihy =>
    have deeper : depthAfter depth '(' = depth + 1 := rfl
    have back : depthAfter (depth + 1) ')' = depth := by
      simp [depthAfter]
    have opens : (isSeparator '(' && depthAfter depth '(' == 0) = false := by
      have : depth + 1 ≠ 0 := by omega
      simp [deeper, this]
    have closes : (isSeparator ')' && depthAfter (depth + 1) ')' == 0) = false := by simp [close]
    rw [List.cons_append, splitAtDepth_cons opens, deeper, List.append_assoc, List.cons_append,
      ihx (by omega) (fun zero => by omega), splitAtDepth_cons closes, back, ihy positive none,
      ← prefixFirst_append, ← prefixFirst_append, ← prefixFirst_append]
    simp

/-- A separator outside all parentheses ends a part. -/
theorem splitAtDepth_separator {isSeparator : Char → Bool} {c : Char} (separates : isSeparator c = true)
    (notOpen : c ≠ '(') (notClose : c ≠ ')') (cs : Text) :
    splitAtDepth isSeparator 0 (c :: cs) = [] :: splitAtDepth isSeparator 0 cs := by
  simp [splitAtDepth, depthAfter, notOpen, notClose, separates]

section Separated

variable {separator : Char} {x : Text}

/-- A text without separators outside its parentheses is one part. -/
theorem Grouped.splitAtDepth_alone (h : Grouped (· ≠ separator) x) (notClose : separator ≠ ')') :
    splitAtDepth (· == separator) 0 x = [x] := by
  have whole : splitAtDepth (· == separator) 0 (x ++ []) = _ :=
    h.splitAtDepth_append (by simpa using notClose.symm) le_rfl
      (fun _ c other => by simpa using other) []
  simpa [splitAtDepth, prefixFirst] using whole

/-- A separator behind it ends the part. -/
theorem Grouped.splitAtDepth_cut (h : Grouped (· ≠ separator) x) (notOpen : separator ≠ '(')
    (notClose : separator ≠ ')') (rest : Text) :
    splitAtDepth (· == separator) 0 (x ++ separator :: rest) =
      x :: splitAtDepth (· == separator) 0 rest := by
  rw [h.splitAtDepth_append (by simpa using notClose.symm) le_rfl
      (fun _ c other => by simpa using other),
    splitAtDepth_separator (by simp) notOpen notClose]
  simp [prefixFirst]

end Separated

/-- A text without semicolons outside its parentheses goes to the first part. -/
theorem Grouped.splitAtSemicolon_append {x : Text} (h : Grouped (· ≠ ';') x) (rest : Text) :
    splitAtDepth (· == ';') 0 (x ++ rest) = prefixFirst x (splitAtDepth (· == ';') 0 rest) :=
  h.splitAtDepth_append (by decide) (Int.le_refl 0) (fun _ _ other => by simpa using other) rest

theorem splitAtSemicolon_cons (cs : Text) :
    splitAtDepth (· == ';') 0 (';' :: cs) = [] :: splitAtDepth (· == ';') 0 cs :=
  splitAtDepth_separator (by decide) (by decide) (by decide) cs

theorem grouped_join {parts : List Text} (grouped : ∀ x ∈ parts, Grouped (fun _ => True) x) :
    Grouped (fun _ => True) (Text.join ";".toList parts) := by
  induction parts with
  | nil => exact .nil
  | cons x parts ih =>
    obtain ⟨first, more⟩ := List.forall_mem_cons.mp grouped
    cases parts with
    | nil => exact first
    | cons y parts =>
      have join : Text.join ";".toList (x :: y :: parts) =
          x ++ ';' :: Text.join ";".toList (y :: parts) := by simp [Text.join]
      rw [join]
      exact first.append (.plain trivial (by decide) (by decide) (ih more))

/-- **The arguments are what semicolons are put between.** -/
theorem semicolonArguments_join {parts : List Text} (nonempty : parts ≠ [])
    (grouped : ∀ x ∈ parts, Grouped (· ≠ ';') x) :
    semicolonArguments (Text.join ";".toList parts) = parts.map Text.strip := by
  refine congrArg (List.map Text.strip) ?_
  induction parts with
  | nil => exact absurd rfl nonempty
  | cons x parts ih =>
    obtain ⟨first, more⟩ := List.forall_mem_cons.mp grouped
    cases parts with
    | nil => exact first.splitAtDepth_alone (by decide)
    | cons y parts =>
      have join : Text.join ";".toList (x :: y :: parts) =
          x ++ ';' :: Text.join ";".toList (y :: parts) := by simp [Text.join]
      rw [join, first.splitAtDepth_cut (by decide) (by decide), ih (List.cons_ne_nil _ _) more]

/-! ## 4. Texts of lexemes -/

/-- The characters that stand for themselves wherever they stand outside of texts. -/
def delimiters : List Char := ['(', ')', ',', ';', '?', ':']

theorem class_of_mem_delimiters : ∀ c ∈ delimiters,
    isBlank c = false ∧ isNameChar c = false ∧ Lexer.isNumberChar c = false ∧ c ≠ '=' ∧
      ∀ d, Symbol.ofPair? c d = none := by
  intro c hc
  fin_cases hc <;> exact ⟨by decide, by decide, by decide, by decide, fun _ => rfl⟩

/-- A delimiter is a spelling of its own. -/
theorem spells_of_mem_delimiters {sp rest : Text} {l : Lexeme} (h : Spells sp l rest)
    (plain : '"' ∉ sp) {c : Char} (mem : c ∈ sp) (delimiter : c ∈ delimiters) :
    sp = [c] ∧ ∃ s, Symbol.ofChar? c = some s ∧ l = .symbol s := by
  obtain ⟨-, name, number, equals, pair⟩ := class_of_mem_delimiters c delimiter
  cases h with
  | number starts span read =>
    rcases (Spells.number starts span read).mem_number mem with digit | mark
    · exact absurd digit (by simp [number])
    · fin_cases delimiter <;> exact absurd mark (by decide)
  | name start _ inside =>
    rcases List.mem_cons.mp mem with rfl | mem
    · exact absurd (isNameChar_of_isNameStart start) (by simp [name])
    · exact absurd (inside c mem) (by simp [name])
  | text => exact absurd List.mem_cons_self plain
  | pair first =>
    rcases List.mem_cons.mp mem with rfl | mem
    · rw [pair] at first
      cases first
    · obtain rfl := List.mem_singleton.mp mem
      exact absurd (Lexer.mem_symbolChars_of_ofPair? first).2 equals
  | single single =>
    obtain rfl := List.mem_singleton.mp mem
    exact ⟨rfl, _, single, rfl⟩

/-- A delimiter in a text is one of its lexemes. -/
theorem mem_lexemes_of_mem_delimiters {s : Text} {ls : List Lexeme} (h : Lexes s ls)
    (plain : '"' ∉ s) {c : Char} (mem : c ∈ s) (delimiter : c ∈ delimiters) :
    ∃ s, Symbol.ofChar? c = some s ∧ .symbol s ∈ ls := by
  induction h with
  | nil => cases mem
  | @blank d cs ls blank _ ih =>
    rcases List.mem_cons.mp mem with rfl | mem
    · exact absurd blank (by simp [(class_of_mem_delimiters c delimiter).1])
    · exact ih (fun quote => plain (by simp [quote])) mem
  | @token sp rest l ls spells _ ih =>
    simp only [List.mem_append, not_or] at plain
    rcases List.mem_append.mp mem with mem | mem
    · obtain ⟨-, s, char, rfl⟩ := spells_of_mem_delimiters spells plain.1 mem delimiter
      exact ⟨s, char, by simp⟩
    · obtain ⟨s, char, mem⟩ := ih plain.2 mem
      exact ⟨s, char, by simp [mem]⟩

/-- A text with one lexeme is its spelling with blanks around it. -/
theorem exists_spelling_of_lexes {s : Text} {l : Lexeme} (h : Lexes s [l]) :
    ∃ front sp back, s = front ++ sp ++ back ∧ (∀ b ∈ front, isBlank b = true) ∧
      (∀ b ∈ back, isBlank b = true) ∧ Spells sp l back := by
  have blanks {s : Text} (h : Lexes s []) : ∀ b ∈ s, isBlank b = true := by
    generalize none : ([] : List Lexeme) = ls at h
    induction h with
    | nil => exact fun _ h => nomatch h
    | blank blank _ ih => exact List.forall_mem_cons.mpr ⟨blank, ih none⟩
    | token => cases none
  generalize one : [l] = ls at h
  induction h with
  | nil => cases one
  | @blank c cs ls blank _ ih =>
    obtain ⟨front, sp, back, rfl, hfront, hback, spells⟩ := ih one
    exact ⟨c :: front, sp, back, rfl, List.forall_mem_cons.mpr ⟨blank, hfront⟩, hback, spells⟩
  | @token sp rest l' ls spells more _ =>
    obtain ⟨rfl, rfl⟩ : l = l' ∧ ls = [] := by simpa [eq_comm] using one
    exact ⟨[], sp, rest, rfl, fun _ h => (nomatch h), blanks more, spells⟩

/-- A text with one delimiter is this with blanks around it. -/
theorem exists_delimiter_of_lexes {s : Text} {symbol : Symbol} (h : Lexes s [.symbol symbol])
    {c : Char} (delimiter : c ∈ delimiters) (char : Symbol.ofChar? c = some symbol) :
    ∃ front back, s = front ++ c :: back ∧ (∀ b ∈ front, isBlank b = true) ∧
      ∀ b ∈ back, isBlank b = true := by
  obtain ⟨front, sp, back, rfl, hfront, hback, spells⟩ := exists_spelling_of_lexes h
  have : sp = [c] := by
    fin_cases delimiter <;> cases char <;>
    · cases spells with
      | pair pair =>
        unfold Symbol.ofPair? at pair
        split at pair <;> cases pair
      | single single =>
        unfold Symbol.ofChar? at single
        split at single <;> first | rfl | cases single
  subst this
  exact ⟨front, back, by simp, hfront, hback⟩

/-! ## 5. Texts of forms -/

/-- May the character stand outside the parentheses of a form of the rank? -/
def Outside (rank : Nat) (c : Char) : Prop := c ≠ ',' ∧ c ≠ ';' ∧ (1 ≤ rank → c ≠ '?')

theorem outside_of_not_mem_delimiters {rank : Nat} {c : Char} (h : c ∉ delimiters) :
    Outside rank c := by
  simp only [delimiters, List.mem_cons, not_or] at h
  exact ⟨h.2.2.1, h.2.2.2.1, fun _ => h.2.2.2.2.1⟩

theorem not_mem_delimiters_of_isBlank {c : Char} (h : isBlank c = true) : c ∉ delimiters :=
  fun mem => by simp [(class_of_mem_delimiters c mem).1] at h

theorem grouped_of_blanks {p : Char → Prop} (all : ∀ c, c ∉ delimiters → p c) {bs : Text}
    (blanks : ∀ b ∈ bs, isBlank b = true) : Grouped p bs :=
  .of_forall fun c hc => by
    have := not_mem_delimiters_of_isBlank (blanks c hc)
    refine ⟨all c this, ?_, ?_⟩
    · rintro rfl
      exact this (by decide)
    · rintro rfl
      exact this (by decide)

/-- Lexemes without parentheses, of which those between operands may stand outside. -/
theorem grouped_of_lexes {p : Char → Prop} {s : Text} {ls : List Lexeme} (h : Lexes s ls)
    (plain : '"' ∉ s)
    (all : ∀ c, (∀ symbol, Symbol.ofChar? c = some symbol → c ∈ delimiters → .symbol symbol ∈ ls) →
      p c)
    (notOpen : .symbol .openParen ∉ ls) (notClose : .symbol .closeParen ∉ ls) : Grouped p s :=
  .of_forall fun c hc => by
    have mem (delimiter : c ∈ delimiters) := mem_lexemes_of_mem_delimiters h plain hc delimiter
    refine ⟨all c fun symbol char delimiter => ?_, ?_, ?_⟩
    · obtain ⟨symbol', char', mem⟩ := mem delimiter
      obtain rfl : symbol' = symbol := by simpa [char] using char'.symm
      exact mem
    · rintro rfl
      obtain ⟨symbol, char, mem⟩ := mem (by decide)
      obtain rfl : Symbol.openParen = symbol := by simpa [Symbol.ofChar?] using char
      exact notOpen mem
    · rintro rfl
      obtain ⟨symbol, char, mem⟩ := mem (by decide)
      obtain rfl : Symbol.closeParen = symbol := by simpa [Symbol.ofChar?] using char
      exact notClose mem

/-- What stands between two parentheses is grouped. -/
theorem grouped_of_parens {p q : Char → Prop} (all : ∀ c, c ∉ delimiters → q c) {t x t' : Text}
    (opens : Lexes t [.symbol .openParen]) (inside : Grouped p x)
    (closes : Lexes t' [.symbol .closeParen]) : Grouped q (t ++ (x ++ t')) := by
  obtain ⟨b1, b2, rfl, h1, h2⟩ := exists_delimiter_of_lexes opens (c := '(') (by decide) rfl
  obtain ⟨b3, b4, rfl, h3, h4⟩ := exists_delimiter_of_lexes closes (c := ')') (by decide) rfl
  have body : Grouped (fun _ => True) (b2 ++ (x ++ b3)) :=
    (grouped_of_blanks (fun _ _ => trivial) h2).append
      ((inside.mono fun _ _ => trivial).append (grouped_of_blanks (fun _ _ => trivial) h3))
  have whole : b1 ++ '(' :: b2 ++ (x ++ (b3 ++ ')' :: b4)) =
      b1 ++ '(' :: (b2 ++ (x ++ b3) ++ ')' :: b4) := by simp
  rw [whole]
  exact (grouped_of_blanks all h1).append (.group body (grouped_of_blanks all h4))

theorem Outside.mono {rank rank' : Nat} {c : Char} (h : Outside rank' c)
    (le : 1 ≤ rank → 1 ≤ rank') : Outside rank c :=
  ⟨h.1, h.2.1, fun positive => h.2.2 (le positive)⟩

theorem Grouped.semicolon {rank : Nat} {x : Text} (h : Grouped (Outside rank) x) :
    Grouped (· ≠ ';') x :=
  h.mono fun _ outside => outside.2.1

theorem grouped_outside_of_lexes {rank : Nat} {s : Text} {ls : List Lexeme} (h : Lexes s ls)
    (plain : '"' ∉ s) (others : ∀ symbol ∈ [Symbol.openParen, .closeParen, .comma, .semicolon],
      .symbol symbol ∉ ls)
    (question : 1 ≤ rank → .symbol .question ∉ ls) : Grouped (Outside rank) s := by
  refine grouped_of_lexes h plain (fun c mem => ⟨?_, ?_, fun positive => ?_⟩)
    (others _ (by decide)) (others _ (by decide))
  · rintro rfl
    exact others .comma (by decide) (mem _ rfl (by decide))
  · rintro rfl
    exact others .semicolon (by decide) (mem _ rfl (by decide))
  · rintro rfl
    exact question positive (mem _ rfl (by decide))

theorem grouped_outside_of_leaf {rank : Nat} {s : Text} {l : Lexeme} (h : Lexes s [l])
    (plain : '"' ∉ s) (leaf : ∀ symbol, l ≠ .symbol symbol) : Grouped (Outside rank) s :=
  grouped_outside_of_lexes h plain (fun symbol _ mem => leaf symbol (List.mem_singleton.mp mem).symm)
    fun _ mem => leaf _ (List.mem_singleton.mp mem).symm

theorem Form.WellFormed.one_le_left {o : Operator} {l r : Form}
    (wf : (Form.binary o l r).WellFormed) : 1 ≤ l.rank := by
  obtain ⟨-, -, ranks⟩ := wf
  split at ranks
  · rename_i level _
    refine Nat.le_trans ?_ ranks.1
    cases level <;> decide
  · omega

theorem Form.WellFormed.one_le_right {o : Operator} {l r : Form}
    (wf : (Form.binary o l r).WellFormed) : 1 ≤ r.rank := by
  obtain ⟨-, -, ranks⟩ := wf
  split at ranks <;> omega

mutual

/-- **A form is grouped**, and outside its parentheses it has no separator of arguments, nor a
question mark unless it is a choice. -/
theorem Form.grouped : (f : Form) → f.WellFormed → ∀ {s : Text}, Lexes s f.lexemes → '"' ∉ s →
    Grouped (Outside f.rank) s
  | .number _, _, _, h, plain => grouped_outside_of_leaf h plain nofun
  | .text _, _, _, h, plain => grouped_outside_of_leaf h plain nofun
  | .name _, _, _, h, plain => grouped_outside_of_leaf h plain nofun
  | .paren f, wf, _, h, plain => by
    obtain ⟨t, rest, rfl, ht, hrest⟩ := h.uncons
    obtain ⟨x, t', rfl, hx, ht'⟩ := hrest.split
    simp only [List.mem_append, not_or] at plain
    exact grouped_of_parens (fun c => outside_of_not_mem_delimiters) ht
      (f.grouped wf hx plain.2.1) ht'
  | .signed sign f, ⟨wf, rank⟩, _, h, plain => by
    obtain ⟨t, x, rfl, ht, hx⟩ := h.uncons
    simp only [List.mem_append, not_or] at plain
    refine Grouped.append (grouped_outside_of_lexes ht plain.1 (by simp) (by simp)) ?_
    exact (f.grouped wf hx plain.2).mono fun c h => h.mono fun _ => by omega
  | .binary o l r, wf, _, h, plain => by
    obtain ⟨x, t, y, rfl, hx, ht, hy⟩ := h.split_at
    simp only [List.mem_append, not_or] at plain
    refine Grouped.append ?_ (Grouped.append ?_ ?_)
    · exact (l.grouped wf.1 hx plain.1).mono fun c h => h.mono fun _ => wf.one_le_left
    · exact grouped_outside_of_lexes ht plain.2.1 (by simp) (by simp)
    · exact (r.grouped wf.2.1 hy plain.2.2).mono fun c h => h.mono fun _ => wf.one_le_right
  | .choice c a b, ⟨wfc, wfa, wfb, _⟩, _, h, plain => by
    obtain ⟨x, t, rest, rfl, hx, ht, hrest⟩ := h.split_at
    obtain ⟨y, t', z, rfl, hy, ht', hz⟩ := hrest.split_at
    simp only [List.mem_append, not_or] at plain
    have loose {rank : Nat} {s : Text} (h : Grouped (Outside rank) s) : Grouped (Outside 0) s :=
      h.mono fun c h => h.mono fun zero => absurd zero (by decide)
    refine (loose (c.grouped wfc hx plain.1)).append (.append ?_ (.append ?_ (.append ?_ ?_)))
    · exact grouped_outside_of_lexes ht plain.2.1 (by simp) (by decide)
    · exact loose (a.grouped wfa hy plain.2.2.1)
    · exact grouped_outside_of_lexes ht' plain.2.2.2.1 (by simp) (by decide)
    · exact loose (b.grouped wfb hz plain.2.2.2.2)
  | .emptyCall n, _, _, h, plain => by
    obtain ⟨t, rest, rfl, ht, hrest⟩ := h.uncons
    obtain ⟨t', t'', rfl, ht', ht''⟩ := hrest.uncons
    simp only [List.mem_append, not_or] at plain
    refine Grouped.append (grouped_outside_of_lexes ht plain.1 (by simp) (by simp)) ?_
    exact grouped_of_parens (fun c => outside_of_not_mem_delimiters) ht'
      (Grouped.nil (p := fun _ => True)) ht''
  | .call n as, wf, _, h, plain => by
    obtain ⟨t, rest, rfl, ht, hrest⟩ := h.uncons
    obtain ⟨t', inside, rfl, ht', hinside⟩ := hrest.uncons
    obtain ⟨x, t'', rfl, hx, ht''⟩ := hinside.split
    simp only [List.mem_append, not_or] at plain
    refine Grouped.append (grouped_outside_of_lexes ht plain.1 (by simp) (by simp)) ?_
    exact grouped_of_parens (fun c => outside_of_not_mem_delimiters) ht'
      (as.grouped wf hx plain.2.2.1) ht''

/-- Arguments are grouped. -/
theorem Arguments.grouped : (as : Arguments) → as.WellFormed → ∀ {s : Text}, Lexes s as.lexemes →
    '"' ∉ s → Grouped (fun _ => True) s
  | .last f, wf, _, h, plain => (f.grouped wf h plain).mono fun _ _ => trivial
  | .more f separator as, ⟨wf, wfs⟩, _, h, plain => by
    obtain ⟨x, t, y, rfl, hx, ht, hy⟩ := h.split_at
    simp only [List.mem_append, not_or] at plain
    refine ((f.grouped wf hx plain.1).mono fun _ _ => trivial).append (.append ?_ ?_)
    · refine grouped_of_lexes ht plain.2.1 (fun _ _ => trivial) ?_ ?_ <;>
        cases separator <;> simp [Separator.symbol]
    · exact as.grouped wfs hy plain.2.2

end

/-! ## 6. Arguments between semicolons -/

/-- The lexemes between the semicolons; a comma is one of them. -/
def Arguments.groups : Arguments → List (List Lexeme)
  | .last f => [f.lexemes]
  | .more f .semicolon as => f.lexemes :: as.groups
  | .more f .comma as => prefixFirst (f.lexemes ++ [.symbol .comma]) as.groups

theorem Arguments.exists_groups (as : Arguments) : ∃ g gs, as.groups = g :: gs := by
  cases as with
  | last f => exact ⟨_, _, rfl⟩
  | more f separator as =>
    cases separator with
    | semicolon => exact ⟨_, _, rfl⟩
    | comma =>
      simp only [groups]
      cases as.groups <;> exact ⟨_, _, rfl⟩

theorem Arguments.phrase_of_mem_groups (as : Arguments) : ∀ g ∈ as.groups, Phrase g := by
  match as with
  | .last f => exact List.forall_mem_singleton.mpr f.phrase
  | .more f .semicolon as =>
    exact List.forall_mem_cons.mpr ⟨f.phrase, as.phrase_of_mem_groups⟩
  | .more f .comma as =>
    have ih := as.phrase_of_mem_groups
    obtain ⟨g, gs, whole⟩ := as.exists_groups
    rw [whole, List.forall_mem_cons] at ih
    simp only [groups, whole, prefixFirst, List.append_assoc, List.singleton_append]
    exact List.forall_mem_cons.mpr ⟨f.phrase.join ih.1 .comma, ih.2⟩

theorem forall₂_prefixFirst {x : Text} {front : List Lexeme} {parts : List Text}
    {groups : List (List Lexeme)} (h : List.Forall₂ Lexes parts groups) (nonempty : groups ≠ [])
    (first : ∀ y back, back ∈ groups → Lexes y back → Lexes (x ++ y) (front ++ back)) :
    List.Forall₂ Lexes (prefixFirst x parts) (prefixFirst front groups) := by
  cases h with
  | nil => exact absurd rfl nonempty
  | cons head tail => exact .cons (first _ _ (by simp) head) tail

/-- **The parts between semicolons** are written with the lexemes between them. -/
theorem Arguments.forall₂_splitAtDepth (as : Arguments) (wf : as.WellFormed) {s : Text}
    (h : Lexes s as.lexemes) (plain : '"' ∉ s) :
    List.Forall₂ Lexes (splitAtDepth (· == ';') 0 s) as.groups := by
  match as with
  | .last f =>
    rw [(f.grouped wf h plain).semicolon.splitAtDepth_alone (by decide)]
    exact .cons h .nil
  | .more f separator as =>
    obtain ⟨x, t, y, rfl, hx, ht, hy⟩ := h.split_at
    simp only [List.mem_append, not_or] at plain
    have whole := (f.grouped wf.1 hx plain.1).semicolon.splitAtSemicolon_append (t ++ y)
    have ih := as.forall₂_splitAtDepth wf.2 hy plain.2.2
    have nonempty : as.groups ≠ [] := by
      obtain ⟨g, gs, whole⟩ := as.exists_groups
      simp [whole]
    have blank {bs : Text} (blanks : ∀ b ∈ bs, isBlank b = true) : Grouped (· ≠ ';') bs :=
      (grouped_of_blanks (fun c => @outside_of_not_mem_delimiters 0 c) blanks).semicolon
    rw [whole]
    cases separator with
    | semicolon =>
      obtain ⟨b1, b2, rfl, h1, h2⟩ := exists_delimiter_of_lexes ht (c := ';') (by decide) rfl
      rw [List.append_assoc, List.cons_append, (blank h1).splitAtSemicolon_append,
        splitAtSemicolon_cons, (blank h2).splitAtSemicolon_append]
      refine .cons ?_ ?_
      · rw [List.append_nil]
        exact hx.append_blanks f.phrase.apart h1
      · have := @forall₂_prefixFirst b2 [] _ _ ih nonempty fun y back _ h => h.blanks_append h2
        obtain ⟨g, gs, whole⟩ := as.exists_groups
        simpa [groups, whole, prefixFirst] using this
    | comma =>
      have comma : Grouped (· ≠ ';') t :=
        grouped_of_lexes ht plain.2.1 (fun c mem => by
          rintro rfl
          exact absurd (mem .semicolon rfl (by decide)) (by simp [Separator.symbol]))
          (by simp [Separator.symbol]) (by simp [Separator.symbol])
      rw [comma.splitAtSemicolon_append, ← prefixFirst_append]
      refine forall₂_prefixFirst ih nonempty fun z back mem hz => ?_
      have phrase := f.phrase.join (as.phrase_of_mem_groups back mem) .comma
      rw [List.append_assoc, List.append_assoc]
      refine hx.append (ht.append hz ?_) phrase.apart
      exact phrase.apart.right_of_append

/-- Without the blanks around them too. -/
theorem Arguments.forall₂_semicolonArguments (as : Arguments) (wf : as.WellFormed) {s : Text}
    (h : Lexes s as.lexemes) (plain : '"' ∉ s) :
    List.Forall₂ Lexes (semicolonArguments s) as.groups := by
  unfold semicolonArguments splitArguments
  rw [List.forall₂_map_left_iff]
  exact (as.forall₂_splitAtDepth wf h plain).imp fun _ _ h => h.strip

/-- A choice has a question mark outside its parentheses. -/
theorem Form.one_le_rank_of_splitAtDepth {f : Form} (wf : f.WellFormed) {s : Text}
    (h : Lexes s f.lexemes) (plain : '"' ∉ s)
    (whole : (splitAtDepth (· == '?') 0 s).length = 1) : 1 ≤ f.rank := by
  cases f with
  | choice c a b =>
    obtain ⟨x, t, y, rfl, hx, ht, hy⟩ := h.split_at
    simp only [List.mem_append, not_or] at plain
    obtain ⟨b1, b2, rfl, h1, h2⟩ := exists_delimiter_of_lexes ht (c := '?') (by decide) rfl
    have unseparated : ∀ d, Outside c.rank d → (d == '?') = false := fun d h => by
      simpa using h.2.2 wf.2.2.2
    have blanks : Grouped (Outside c.rank) b1 :=
      grouped_of_blanks (fun d => outside_of_not_mem_delimiters) h1
    rw [(c.grouped wf.1 hx plain.1).splitAtDepth_append rfl (Int.le_refl 0) (fun _ => unseparated),
      List.append_assoc, List.cons_append,
      blanks.splitAtDepth_append rfl (Int.le_refl 0) (fun _ => unseparated),
      splitAtDepth_separator (by decide) (by decide) (by decide)] at whole
    have := List.length_pos_iff.mpr (splitAtDepth_ne_nil (· == '?') 0 (b2 ++ y))
    simp only [prefixFirst, List.length_cons] at whole
    omega
  | binary o l r => cases o <;> simp [Form.rank, Operator.level?, Level.rank]
  | _ => simp [Form.rank]

/-! ## 7. Parts of a text -/

theorem mem_of_mem_splitAtDepth {isSeparator : Char → Bool} {depth : Int} {s part : Text} {c : Char}
    (mem : part ∈ splitAtDepth isSeparator depth s) (h : c ∈ part) : c ∈ s := by
  induction s generalizing depth part with
  | nil =>
    obtain rfl : part = [] := by simpa [splitAtDepth] using mem
    cases h
  | cons d s ih =>
    simp only [splitAtDepth] at mem
    split at mem
    · rcases List.mem_cons.mp mem with rfl | mem
      · cases h
      · exact List.mem_cons_of_mem _ (ih mem h)
    · split at mem
      · obtain rfl := List.mem_singleton.mp mem
        obtain rfl := List.mem_singleton.mp h
        exact List.mem_cons_self
      · rename_i first parts whole
        have inner {part : Text} (mem : part ∈ first :: parts) (h : c ∈ part) : c ∈ s :=
          ih (whole ▸ mem) h
        rcases List.mem_cons.mp mem with rfl | mem
        · rcases List.mem_cons.mp h with rfl | h
          · exact List.mem_cons_self
          · exact List.mem_cons_of_mem _ (inner List.mem_cons_self h)
        · exact List.mem_cons_of_mem _ (inner (List.mem_cons_of_mem _ mem) h)

/-- The arguments of a call are written with characters of its body. -/
theorem mem_of_mem_semicolonArguments {body part : Text} {c : Char}
    (mem : part ∈ semicolonArguments body) (h : c ∈ part) : c ∈ body := by
  obtain ⟨part', mem', rfl⟩ := List.mem_map.mp mem
  exact mem_of_mem_splitAtDepth mem' (mem_of_mem_strip h)

end Haulage
