/-
# Heads of calls among lexemes

The heads of calls are looked for in a text as it is written.  In one that is cut into lexemes they
stand where one expects them: nothing begins inside a lexeme, and at the start of one only if it is
the name that is looked for and a parenthesis opens behind it (`quiet_of_lexes`).  What makes this
true of the names of shorthands is that they are written in capitals of ASCII and have at least two
letters; an exponent has a letter too, but no other behind it.
-/
import Haulage.Proofs.Text.Search
import Haulage.Proofs.Formula.Lexing
import Haulage.Shorthand.Rule

namespace Haulage

open Lexer (Lexes Spells)

/-! ## 1. Names in letters of either case -/

/-- Is the name written with the same letters, of either case? -/
def Named (name n : Text) : Prop := dropSame? name n = some []

instance (name n : Text) : Decidable (Named name n) := inferInstanceAs (Decidable (_ = _))

/-- A name that shorthands may have. -/
structure ShorthandName (name : Text) : Prop where
  capitals : ∀ w ∈ name, w ∈ latinCapitals
  long : 2 ≤ name.length

theorem ShorthandName.ne_nil {name : Text} (sn : ShorthandName name) : name ≠ [] :=
  List.length_pos_iff.mp (Nat.lt_of_lt_of_le Nat.two_pos sn.long)

theorem Shorthand.shorthandName (s : Shorthand) : ShorthandName s.name.toList := by
  cases s <;> exact ⟨by decide, by decide⟩

/-- A name is written letter by letter. -/
theorem named_iff_forall₂ {name word : Text} :
    Named name word ↔ List.Forall₂ (fun w c => sameLetter w c = true) name word := by
  induction name generalizing word with
  | nil => simp [Named, dropSame?]
  | cons w name ih =>
    cases word with
    | nil => simp [Named, dropSame?]
    | cons c word =>
      rw [List.forall₂_cons, ← ih, Named, Named, dropSame?]
      split
      · rename_i letter
        simp [letter]
      · rename_i other
        simp [other]

theorem length_of_named {name n : Text} (h : Named name n) : n.length = name.length :=
  (named_iff_forall₂.mp h).length_eq.symm

/-- What the letters of a name have, those it is written with have as well. -/
theorem forall_of_named {name word : Text} {p q : Char → Prop}
    (carries : ∀ w c, p w → sameLetter w c = true → q c) (named : Named name word)
    (h : ∀ w ∈ name, p w) : ∀ c ∈ word, q c := by
  induction named_iff_forall₂.mp named with
  | nil => exact List.forall_mem_nil _
  | cons letter more ih =>
    obtain ⟨first, rest⟩ := List.forall_mem_cons.mp h
    exact List.forall_mem_cons.mpr
      ⟨carries _ _ first letter, ih (named_iff_forall₂.mpr more) rest⟩

/-- A name is written with its blanks. -/
theorem map_isBlank_of_named {name word : Text} (named : Named name word) :
    word.map isBlank = name.map isBlank := by
  induction named_iff_forall₂.mp named with
  | nil => rfl
  | cons letter more ih =>
    rw [List.map_cons, List.map_cons, isBlank_of_sameLetter letter,
      ih (named_iff_forall₂.mpr more)]

/-- A name is written in letters. -/
theorem mem_latinLetters_of_named {name word : Text} (sn : ShorthandName name)
    (named : Named name word) : ∀ c ∈ word, c ∈ latinLetters :=
  forall_of_named (fun _ _ => mem_latinLetters_of_sameLetter) named sn.capitals

theorem exists_cons_of_named {name word : Text} (sn : ShorthandName name) (named : Named name word) :
    ∃ c cs, word = c :: cs := by
  have long := sn.long
  rw [← length_of_named named] at long
  exact List.exists_cons_of_length_pos (Nat.lt_of_lt_of_le Nat.two_pos long)

theorem dropSame?_of_not_letter {name : Text} (sn : ShorthandName name) {c : Char}
    (other : c ∉ latinLetters) (cs : Text) : dropSame? name (c :: cs) = none := by
  obtain ⟨w, ws, rfl⟩ := List.exists_cons_of_length_pos (Nat.lt_of_lt_of_le Nat.two_pos sn.long)
  rw [dropSame?, if_neg]
  exact fun same => other (mem_latinLetters_of_sameLetter (sn.capitals w List.mem_cons_self) same)

theorem exists_of_dropSame? {name s rest : Text} (h : dropSame? name s = some rest) :
    ∃ word, s = word ++ rest ∧ Named name word := by
  induction name generalizing s with
  | nil => exact ⟨[], by simpa [dropSame?] using h, rfl⟩
  | cons w name ih =>
    cases s with
    | nil => simp [dropSame?] at h
    | cons c s =>
      rw [dropSame?] at h
      split at h
      · rename_i letter
        obtain ⟨word, rfl, named⟩ := ih h
        exact ⟨c :: word, rfl, named_iff_forall₂.mpr (.cons letter (named_iff_forall₂.mp named))⟩
      · cases h

theorem dropSame?_append {name n : Text} (h : Named name n) (rest : Text) :
    dropSame? name (n ++ rest) = some rest := by
  induction named_iff_forall₂.mp h with
  | nil => rfl
  | cons letter more ih =>
    rw [List.cons_append, dropSame?, if_pos letter, ih (named_iff_forall₂.mpr more)]

/-- Where a word does not say the name, the name is not there or goes on. -/
theorem inWord_of_dropSame? {name n rest r : Text} (capitals : ∀ w ∈ name, w ∈ latinCapitals)
    (word : ∀ c ∈ n, isNameChar c = true) (stop : inWord rest.head? = false)
    (other : ¬Named name n) (h : dropSame? name (n ++ rest) = some r) : inWord r.head? = true := by
  induction name generalizing n with
  | nil =>
    cases n with
    | nil => exact absurd rfl other
    | cons c n =>
      obtain rfl : c :: n ++ rest = r := by simpa [dropSame?] using h
      exact word c (by simp)
  | cons w name ih =>
    have same {c : Char} (same : sameLetter w c = true) : isNameChar c = true :=
      isNameChar_of_mem_latinLetters (mem_latinLetters_of_sameLetter (capitals w (by simp)) same)
    cases n with
    | nil =>
      cases rest with
      | nil => simp [dropSame?] at h
      | cons d rest =>
        rw [List.nil_append, dropSame?] at h
        split at h
        · rename_i letter
          rw [List.head?_cons, inWord_some, same letter] at stop
          cases stop
        · cases h
    | cons c n =>
      rw [List.cons_append, dropSame?] at h
      split at h
      · rename_i letter
        refine ih (fun w hw => capitals w (by simp [hw])) (fun c hc => word c (by simp [hc])) ?_ h
        intro named
        apply other
        rw [Named, dropSame?, if_pos letter]
        exact named
      · cases h

/-! ## 2. What may stand behind a name -/

/-- Does no parenthesis open here, blanks left out? -/
def Shut (rest : Text) : Prop := openingLength? rest = none

theorem openingLength?_append_blanks {bs : Text} (blanks : ∀ b ∈ bs, isBlank b = true)
    (rest : Text) :
    openingLength? (bs ++ rest) = (openingLength? rest).map (· + bs.length) := by
  unfold openingLength?
  rw [List.dropWhile_append_of_pos blanks, List.takeWhile_append_of_pos blanks]
  split
  · simp only [List.length_append, Option.map_some, Option.some.injEq]
    omega
  · rfl

theorem openingLength?_eq_some_iff {s : Text} {n : Nat} :
    openingLength? s = some n ↔ ∃ blanks inside, s = blanks ++ '(' :: inside ∧
      (∀ b ∈ blanks, isBlank b = true) ∧ n = blanks.length + 1 := by
  constructor
  · intro h
    unfold openingLength? at h
    split at h
    · rename_i inside opens
      refine ⟨s.takeWhile isBlank, inside, ?_, ?_, (Option.some.inj h).symm⟩
      · rw [← opens, List.takeWhile_append_dropWhile]
      · exact fun b mem => List.all_eq_true.mp List.all_takeWhile b mem
    · cases h
  · rintro ⟨blanks, inside, rfl, blank, rfl⟩
    have opens : openingLength? ('(' :: inside) = some 1 := by
      simp [openingLength?, show isBlank '(' = false by decide]
    rw [openingLength?_append_blanks blank, opens, Option.map_some, Nat.add_comm]

theorem shut_append_blanks {bs : Text} (blanks : ∀ b ∈ bs, isBlank b = true) {rest : Text} :
    Shut (bs ++ rest) ↔ Shut rest := by
  simp [Shut, openingLength?_append_blanks blanks]

theorem shut_cons {c : Char} (blank : isBlank c = false) (other : c ≠ '(') (rest : Text) :
    Shut (c :: rest) := by
  unfold Shut openingLength?
  rw [List.dropWhile_cons, if_neg (by simp [blank])]
  split
  · rename_i whole
    exact absurd (List.cons.inj whole).1 other
  · rfl

/-- Inside a word no parenthesis opens. -/
theorem shut_of_inWord {r : Text} (h : inWord r.head? = true) : Shut r := by
  cases r with
  | nil => rfl
  | cons c r =>
    refine shut_cons (Lexer.isBlank_of_isNameChar h) ?_ r
    rintro rfl
    have : isNameChar '(' = false := by decide
    simp [this] at h

/-- What may follow a formula without becoming a part of its last name. -/
structure Follows (rest : Text) : Prop where
  stop : inWord rest.head? = false
  shut : Shut rest

theorem Follows.nil : Follows [] := ⟨rfl, rfl⟩

theorem Follows.cons {c : Char} (name : isNameChar c = false) (blank : isBlank c = false)
    (other : c ≠ '(') (rest : Text) : Follows (c :: rest) :=
  ⟨name, shut_cons blank other rest⟩

/-! ## 3. Where no head begins -/

section Heads

variable {name : Text} {before : Option Char} {c : Char} {cs rest : Text}

theorem headNamed_of_not_letter (sn : ShorthandName name) (other : c ∉ latinLetters) :
    headNamed name before c cs = none := by
  unfold headNamed
  rw [dropSame?_of_not_letter sn other, ite_self]

/-- Where no parenthesis opens no call begins. -/
theorem quiet_of_no_paren {x rest : Text} (h : '(' ∉ x ++ rest) :
    Quiet (headNamed name) before x rest := by
  induction x generalizing before with
  | nil => trivial
  | cons c x ih =>
    refine ⟨?_, ih fun mem => h (List.mem_cons_of_mem _ mem)⟩
    unfold headNamed
    split
    · split
      · rename_i r same
        have shut : openingLength? r = none := by
          unfold openingLength?
          split
          · rename_i more opens
            have mem : '(' ∈ r.dropWhile isBlank := opens ▸ List.mem_cons_self
            obtain ⟨word, whole, -⟩ := exists_of_dropSame? same
            rw [List.cons_append, whole] at h
            exact absurd (List.mem_append_right word ((List.dropWhile_sublist _).mem mem)) h
          · rfl
        rw [shut]
        rfl
      · rfl
    · rfl

theorem headNamed_of_inWord (sn : ShorthandName name) (inside : inWord before = true) :
    headNamed name before c cs = none := by
  by_cases letter : c ∈ latinLetters
  · have : isBoundary before (some c) = false := by
      simp [isBoundary, inside, isNameChar_of_mem_latinLetters letter]
    simp [headNamed, this]
  · exact headNamed_of_not_letter sn letter

theorem quiet_of_no_letters (sn : ShorthandName name) {x : Text}
    (others : ∀ c ∈ x, c ∉ latinLetters) : Quiet (headNamed name) before x rest := by
  induction x generalizing before with
  | nil => trivial
  | cons c x ih =>
    exact ⟨headNamed_of_not_letter sn (others c (by simp)), ih fun d hd => others d (by simp [hd])⟩

theorem quiet_of_inWord (sn : ShorthandName name) {x : Text} (word : ∀ c ∈ x, isNameChar c = true)
    (inside : inWord before = true) : Quiet (headNamed name) before x rest := by
  induction x generalizing before with
  | nil => trivial
  | cons c x ih =>
    exact ⟨headNamed_of_inWord sn inside,
      ih (fun d hd => word d (by simp [hd])) (word c (by simp))⟩

/-- A word begins a call by the name only if it says it and a parenthesis opens behind it. -/
theorem quiet_of_word (sn : ShorthandName name) (word : ∀ d ∈ c :: cs, isNameChar d = true)
    (stop : inWord rest.head? = false) (other : Named name (c :: cs) → Shut rest) :
    Quiet (headNamed name) before (c :: cs) rest := by
  refine ⟨?_, quiet_of_inWord sn (fun d hd => word d (by simp [hd])) (word c (by simp))⟩
  unfold headNamed
  split
  · rw [← List.cons_append]
    by_cases named : Named name (c :: cs)
    · have shut : openingLength? rest = none := other named
      simp only [dropSame?_append named, shut, Option.map_none]
    · cases drop : dropSame? name (c :: cs ++ rest) with
      | none => rfl
      | some r =>
        have shut : openingLength? r = none :=
          shut_of_inWord (inWord_of_dropSame? sn.capitals word stop named drop)
        simp only [shut, Option.map_none]
  · rfl

/-- A call by the name begins at a word that says it if a parenthesis opens behind it. -/
theorem headNamed_of_named (sn : ShorthandName name) (named : Named name (c :: cs))
    (outside : inWord before = false) {k : Nat} (opening : openingLength? rest = some k) :
    headNamed name before c (cs ++ rest) = some ⟨c :: cs, (c :: cs).length + k⟩ := by
  have letter : isNameChar c = true :=
    isNameChar_of_mem_latinLetters (mem_latinLetters_of_named sn named c List.mem_cons_self)
  have boundary : isBoundary before (some c) = true := by simp [isBoundary, outside, letter]
  rw [headNamed, if_pos boundary, ← List.cons_append, dropSame?_append named]
  simp [opening, ← length_of_named named]

/-- The letter of an exponent begins no name of two letters. -/
theorem quiet_of_exponent (sn : ShorthandName name) {ex : Text} (h : Lexer.IsExponent ex) :
    Quiet (headNamed name) before ex rest := by
  obtain ⟨mark, sign, digits, rfl, -, hs, nonempty, all⟩ := h.parts
  have digit {d : Char} (h : isDigitLike d = true) : d ∉ latinLetters := fun letter => by
    simp [(class_of_mem_latinLetters d letter).2.1] at h
  have others : ∀ d ∈ sign ++ digits, d ∉ latinLetters := fun d hd => by
    rcases List.mem_append.mp hd with hd | hd
    · rcases hs with rfl | rfl | rfl
      · cases hd
      · obtain rfl : d = '+' := by simpa using hd
        decide
      · obtain rfl : d = '-' := by simpa using hd
        decide
    · exact digit (all d hd)
  refine ⟨?_, quiet_of_no_letters sn others⟩
  match name, sn with
  | w :: w' :: name, sn =>
    obtain ⟨d, ds, whole⟩ := List.exists_cons_of_ne_nil (List.append_ne_nil_of_right_ne_nil sign nonempty)
    have mismatch : ¬sameLetter w' d = true := fun same =>
      others d (by simp [whole]) (mem_latinLetters_of_sameLetter (sn.capitals w' (by simp)) same)
    have none : dropSame? (w :: w' :: name) (mark :: (d :: ds ++ rest)) = none := by
      rw [dropSame?.eq_3, List.cons_append, dropSame?.eq_3, if_neg mismatch, ite_self]
    rw [whole, headNamed, none, ite_self]
  | [], sn => exact absurd sn.long (by decide)
  | [_], sn => exact absurd sn.long (by simp)

end Heads

/-! ## 4. Fronts of calls -/

theorem not_mem_latinLetters_of_isBlank {c : Char} (h : isBlank c = true) : c ∉ latinLetters :=
  fun letter => by simp [(class_of_mem_latinLetters c letter).2.2] at h

/-- The front of a call, up to its parenthesis: the name as it is written, and blanks. -/
structure IsFront (name word front : Text) : Prop where
  named : Named name word
  blanks : ∃ bs, front = word ++ bs ∧ ∀ b ∈ bs, isBlank b = true

section Fronts

variable {name word front : Text} {before : Option Char} {c : Char} {cs : Text}

theorem IsFront.mem (h : IsFront name word front) (sn : ShorthandName name) :
    ∀ d ∈ front, d ∈ latinLetters ∨ isBlank d = true := by
  obtain ⟨bs, rfl, blank⟩ := h.blanks
  intro d mem
  exact (List.mem_append.mp mem).imp (mem_latinLetters_of_named sn h.named d) (blank d)

/-- No argument begins or ends in the front of a call. -/
theorem IsFront.plain (h : IsFront name word front) (sn : ShorthandName name) :
    ∀ d ∈ front, d ≠ ';' ∧ d ≠ '(' ∧ d ≠ ')' := by
  intro d mem
  have kind := h.mem sn d mem
  refine ⟨?_, ?_, ?_⟩ <;>
  · rintro rfl
    exact absurd kind (by decide)

theorem IsFront.ne_nil (h : IsFront name word front) (nonempty : name ≠ []) : front ≠ [] := by
  obtain ⟨bs, rfl, -⟩ := h.blanks
  have size := length_of_named h.named
  rintro nothing
  obtain ⟨rfl, -⟩ := List.append_eq_nil_iff.mp nothing
  exact nonempty (List.length_eq_zero_iff.mp size.symm)

/-- A front is a letter, and behind it letters and blanks. -/
theorem IsFront.uncons {d : Char} (h : IsFront name word (d :: front)) (sn : ShorthandName name) :
    ∃ letters bs, front = letters ++ bs ∧ d ∈ latinLetters ∧ (∀ c ∈ letters, c ∈ latinLetters) ∧
      ∀ b ∈ bs, isBlank b = true := by
  obtain ⟨bs, whole, blank⟩ := h.blanks
  have letters := mem_latinLetters_of_named sn h.named
  obtain ⟨c, cs, rfl⟩ := exists_cons_of_named sn h.named
  obtain ⟨rfl, rfl⟩ := List.cons.inj whole
  obtain ⟨first, others⟩ := List.forall_mem_cons.mp letters
  exact ⟨cs, bs, rfl, first, others, blank⟩

/-- **A head of a call** is its front and a parenthesis, at a boundary between words. -/
theorem headNamed_eq_some_iff_isFront {h : CallHead} :
    headNamed name before c cs = some h ↔ isBoundary before (some c) = true ∧ ∃ word front inside,
      c :: cs = front ++ '(' :: inside ∧ IsFront name word front ∧
        h = ⟨word, front.length + 1⟩ := by
  constructor
  · intro found
    unfold headNamed at found
    split at found
    · rename_i boundary
      refine ⟨boundary, ?_⟩
      split at found
      · rename_i rest same
        obtain ⟨n, opens, rfl⟩ := Option.map_eq_some_iff.mp found
        obtain ⟨word, whole, named⟩ := exists_of_dropSame? same
        obtain ⟨bs, inside, rfl, blank, rfl⟩ := openingLength?_eq_some_iff.mp opens
        refine ⟨word, word ++ bs, inside, by rw [whole, List.append_assoc],
          ⟨named, bs, rfl, blank⟩, ?_⟩
        rw [whole, ← length_of_named named, List.take_left, List.length_append, Nat.add_assoc]
      · cases found
    · cases found
  · rintro ⟨boundary, word, front, inside, whole, isFront, rfl⟩
    obtain ⟨bs, rfl, blank⟩ := isFront.blanks
    rw [List.append_assoc] at whole
    have opens := openingLength?_eq_some_iff.mpr ⟨bs, inside, rfl, blank, rfl⟩
    rw [headNamed, if_pos boundary, whole, dropSame?_append isFront.named]
    dsimp only
    rw [opens, ← length_of_named isFront.named, List.take_left, Option.map_some,
      List.length_append, Nat.add_assoc]

/-- The name of a shorthand starts with a letter, so no word stands in front of its heads. -/
theorem headNamed_eq_some_iff (sn : ShorthandName name) {h : CallHead} :
    headNamed name before c cs = some h ↔ inWord before = false ∧ ∃ word front inside,
      c :: cs = front ++ '(' :: inside ∧ IsFront name word front ∧
        h = ⟨word, front.length + 1⟩ := by
  rw [headNamed_eq_some_iff_isFront]
  refine and_congr_left fun ⟨word, front, inside, whole, isFront, _⟩ => ?_
  obtain ⟨bs, rfl, -⟩ := isFront.blanks
  have letters := mem_latinLetters_of_named sn isFront.named
  obtain ⟨d, ds, rfl⟩ := exists_cons_of_named sn isFront.named
  obtain rfl : c = d := (List.cons.inj whole).1
  simp [isBoundary, isNameChar_of_mem_latinLetters (letters c List.mem_cons_self)]

end Fronts

/-! ## 5. Heads among lexemes -/

/-- Do the two lexemes not start a call by the name? -/
def NoHead (name : Text) : Lexeme → Lexeme → Prop
  | .name n, .symbol .openParen => ¬Named name n
  | _, _ => True

theorem not_mem_latinLetters_of_mem_symbolChars :
    ∀ c ∈ Lexer.symbolChars, c ∉ latinLetters := by decide

/-- Only the opening parenthesis is written with it. -/
theorem eq_openParen_of_spells {cs rest : Text} {l : Lexeme} (h : Spells ('(' :: cs) l rest) :
    l = .symbol .openParen ∧ cs = [] := by
  cases h with
  | number starts =>
    exact absurd starts (by simp [Lexer.startsNumber, show isDigitLike '(' = false by decide])
  | name start => exact absurd start (by decide)
  | pair pair => simp [Symbol.ofPair?] at pair
  | single single =>
    obtain rfl : Symbol.openParen = _ := by simpa [Symbol.ofChar?] using single
    exact ⟨rfl, rfl⟩

/-- Behind lexemes of which the first is no opening parenthesis none opens. -/
theorem shut_of_lexes {s rest : Text} {ls : List Lexeme} (h : Lexes s ls)
    (first : ls.head? ≠ some (.symbol .openParen)) (shut : ls = [] → Shut rest) :
    Shut (s ++ rest) := by
  induction h with
  | nil => exact shut rfl
  | @blank c cs ls blank more ih =>
    have blanks : ∀ b ∈ [c], isBlank b = true := by simpa using blank
    exact (shut_append_blanks blanks).mpr (ih first shut)
  | @token sp more l ls spells _ _ =>
    obtain ⟨c, cs, rfl⟩ := List.exists_cons_of_ne_nil spells.ne_nil
    refine shut_cons spells.isBlank ?_ _
    rintro rfl
    exact first (by rw [(eq_openParen_of_spells spells).1]; rfl)

variable {name : Text}

/-- The heads of calls by a name begin at names. -/
theorem quiet_of_spells (sn : ShorthandName name) {sp more : Text} {l : Lexeme}
    (h : Spells sp l more) (plain : '"' ∉ sp) (other : ∀ n, l ≠ .name n) (before : Option Char)
    (rest : Text) : Quiet (headNamed name) before sp rest := by
  have single {c : Char} (symbol : c ∈ Lexer.symbolChars) : c ∉ latinLetters :=
    not_mem_latinLetters_of_mem_symbolChars c symbol
  cases h with
  | number starts span read =>
    obtain ⟨front, ex, whole, all, hex⟩ := (Spells.number starts span read).number_parts
    have others : ∀ d ∈ front, d ∉ latinLetters := fun d hd letter => by
      have number := all d hd
      simp only [Lexer.isNumberChar, (class_of_mem_latinLetters d letter).2.1, Bool.false_or,
        beq_iff_eq] at number
      subst number
      exact absurd letter (by decide)
    rw [whole]
    refine quiet_append.mpr ⟨quiet_of_no_letters sn others, ?_⟩
    rcases hex with rfl | hex
    · trivial
    · exact quiet_of_exponent sn hex
  | name => exact absurd rfl (other _)
  | text => exact absurd (List.mem_cons_self) plain
  | pair pair =>
    obtain ⟨first, rfl⟩ := Lexer.mem_symbolChars_of_ofPair? pair
    refine quiet_of_no_letters sn fun d hd => ?_
    rcases List.mem_cons.mp hd with rfl | hd
    · exact single first
    · obtain rfl := List.mem_singleton.mp hd
      decide
  | single char =>
    refine quiet_of_no_letters sn fun d hd => ?_
    obtain rfl := List.mem_singleton.mp hd
    exact single (Lexer.mem_symbolChars_of_ofChar? char)

/-- **Where no call by the name stands**, none begins. -/
theorem quiet_of_lexes (sn : ShorthandName name) {s rest : Text} {ls : List Lexeme}
    (h : Lexes s ls) (plain : '"' ∉ s) (none : ls.IsChain (NoHead name)) (follows : Follows rest)
    (before : Option Char) : Quiet (headNamed name) before s rest := by
  induction h generalizing before with
  | nil => trivial
  | @blank c cs ls blank more ih =>
    exact ⟨headNamed_of_not_letter sn (not_mem_latinLetters_of_isBlank blank),
      ih (fun quote => plain (by simp [quote])) none _⟩
  | @token sp more l ls spells lexes ih =>
    simp only [List.mem_append, not_or] at plain
    refine quiet_append.mpr ⟨?_, ih plain.2 none.of_cons _⟩
    by_cases isName : ∃ n, l = .name n
    · obtain ⟨n, rfl⟩ := isName
      cases spells with
      | @name c cs _ start digit inside stop =>
        refine quiet_of_word sn (fun d hd => ?_) ?_ fun named => ?_
        · rcases List.mem_cons.mp hd with rfl | hd
          · exact isNameChar_of_isNameStart start
          · exact inside d hd
        · cases more with
          | nil => exact follows.stop
          | cons d more => simpa using stop
        · refine shut_of_lexes lexes ?_ fun _ => follows.shut
          intro first
          have pair : NoHead name (.name (c :: cs)) (.symbol .openParen) :=
            none.rel_head? (by simpa using first)
          exact pair named
    · exact quiet_of_spells sn spells plain.1 (fun n hn => isName ⟨n, hn⟩) before _

end Haulage
