/-
# What the lexer reads, without places

`Lexes s ls` says that the text `s` is cut into the lexemes `ls`: blanks are dropped, and every other
stretch **spells** a lexeme in front of what follows it.  `lexes_iff_scan` says that this is what
`Lexer.scan` computes, the places of the tokens left out.

A spelling looks at what follows it only to see where it ends.  So it may lose any part of what
follows from the back (`Spells.truncate`), and what follows may be replaced by anything that cannot
prolong it (`Spells.extend`).  From the first a text can be cut between any two of its lexemes
(`Lexes.split`); the second is what puts texts together again.
-/
import Haulage.Proofs.Text.Class
import Haulage.Formula.Lexer

namespace Haulage

namespace Lexer

/-! ## 1. Where numbers end -/

theorem isDigitLike_of_isNameChar_false {c : Char} (name : isNameChar c = false) :
    isDigitLike c = false :=
  Bool.eq_false_iff.mpr fun h => Bool.eq_false_iff.mp name (isNameChar_of_isDigitLike h)

theorem isNumberChar_of_isNameChar_false {c : Char} (name : isNameChar c = false) (point : c ≠ '.') :
    isNumberChar c = false := by
  simp [isNumberChar, isDigitLike_of_isNameChar_false name, point]

theorem isBlank_of_isNameChar {c : Char} (h : isNameChar c = true) : isBlank c = false :=
  Bool.eq_false_iff.mpr fun blank => by simp [isNameChar_of_isBlank blank] at h

theorem takeWhile_eq_nil_of_head {p : Char → Bool} {r : Text} (h : r.head?.any p = false) :
    r.takeWhile p = [] := by
  cases r with
  | nil => rfl
  | cons c r =>
    have : p c = false := by simpa using h
    simp [this]

theorem dropWhile_eq_self_of_head {p : Char → Bool} {r : Text} (h : r.head?.any p = false) :
    r.dropWhile p = r := by
  cases r with
  | nil => rfl
  | cons c r =>
    have : p c = false := by simpa using h
    simp [this]

theorem head?_dropWhile_any (p : Char → Bool) (s : Text) : (s.dropWhile p).head?.any p = false := by
  induction s with
  | nil => rfl
  | cons c s ih =>
    simp only [List.dropWhile_cons]
    split
    · exact ih
    · rename_i hc
      simpa using hc

/-- An exponent: its mark, perhaps a sign, and digits. -/
structure IsExponent (ex : Text) : Prop where
  parts : ∃ mark sign digits, ex = mark :: (sign ++ digits) ∧ (mark = 'e' ∨ mark = 'E') ∧
    (sign = [] ∨ sign = ['+'] ∨ sign = ['-']) ∧ digits ≠ [] ∧ ∀ d ∈ digits, isDigitLike d = true

theorem takeWhile_append_of_all {p : Char → Bool} {s r : Text} (all : ∀ c ∈ s, p c = true)
    (stop : r.head?.any p = false) : (s ++ r).takeWhile p = s := by
  rw [List.takeWhile_append_of_pos all, takeWhile_eq_nil_of_head stop, List.append_nil]

/-- An exponent is read to its end. -/
theorem exponentLength_append {ex r : Text} (h : IsExponent ex)
    (stop : r.head?.any isDigitLike = false) : exponentLength (ex ++ r) = ex.length := by
  obtain ⟨mark, sign, digits, rfl, hm, hs, nonempty, all⟩ := h.parts
  have mark' : (mark == 'e' || mark == 'E') = true := by
    rcases hm with rfl | rfl <;> rfl
  obtain ⟨d, ds, rfl⟩ := List.exists_cons_of_ne_nil nonempty
  have hd : isDigitLike d = true := all d (by simp)
  have inner : (ds ++ r).takeWhile isDigitLike = ds :=
    takeWhile_append_of_all (fun c hc => all c (by simp [hc])) stop
  rcases hs with rfl | rfl | rfl
  · simp only [List.nil_append, List.cons_append, exponentLength, mark', hd, if_true,
      List.takeWhile_cons, inner, List.length_cons]
    omega
  all_goals
    have plus : isDigitLike '+' = false := by decide
    have minus : isDigitLike '-' = false := by decide
    simp [exponentLength, mark', hd, plus, minus, inner]
    omega

/-- What is taken for an exponent is one, and ends where its digits do. -/
theorem exists_exponent {s : Text} (h : exponentLength s ≠ 0) :
    ∃ ex r, s = ex ++ r ∧ IsExponent ex ∧ r.head?.any isDigitLike = false ∧
      exponentLength s = ex.length := by
  have all (t : Text) : ∀ d ∈ t.takeWhile isDigitLike, isDigitLike d = true := fun d hd => by
    have := List.all_takeWhile (p := isDigitLike) (l := t)
    exact List.all_eq_true.mp this d hd
  obtain ⟨ex, r, rfl, hex, stop⟩ : ∃ ex r, s = ex ++ r ∧ IsExponent ex ∧
      r.head?.any isDigitLike = false := by
    unfold exponentLength at h
    split at h
    · rename_i c cs
      split at h
      · rename_i mark
        have mark : c = 'e' ∨ c = 'E' := by simpa using mark
        split at h
        · rename_i d ds
          split at h
          · rename_i digit
            refine ⟨c :: (d :: ds).takeWhile isDigitLike, (d :: ds).dropWhile isDigitLike,
              by simp only [List.cons_append, List.takeWhile_append_dropWhile],
              ⟨c, [], (d :: ds).takeWhile isDigitLike, rfl, mark, .inl rfl, by simp [digit],
                all _⟩, head?_dropWhile_any _ _⟩
          · split at h
            · rename_i sign
              have sign : [d] = ['+'] ∨ [d] = ['-'] := by simpa using sign
              split at h
              · rename_i next
                refine ⟨c :: ([d] ++ ds.takeWhile isDigitLike), ds.dropWhile isDigitLike,
                  by simp only [List.cons_append, List.nil_append,
                    List.takeWhile_append_dropWhile],
                  ⟨c, [d], _, rfl, mark, .inr sign, ?_, all _⟩, head?_dropWhile_any _ _⟩
                cases ds with
                | nil => simp at next
                | cons e es => simp [show isDigitLike e = true by simpa using next]
              · simp at h
            · simp at h
        · simp at h
      · simp at h
    · simp at h
  exact ⟨ex, r, rfl, hex, stop, exponentLength_append hex stop⟩

theorem IsExponent.ne_nil {ex : Text} (h : IsExponent ex) : ex ≠ [] := by
  obtain ⟨mark, sign, digits, rfl, -⟩ := h.parts
  simp

/-- More digits make a longer exponent. -/
theorem IsExponent.append {ex ds : Text} (h : IsExponent ex)
    (all : ∀ d ∈ ds, isDigitLike d = true) : IsExponent (ex ++ ds) := by
  obtain ⟨mark, sign, digits, rfl, hm, hs, nonempty, all'⟩ := h.parts
  refine ⟨mark, sign, digits ++ ds, by simp, hm, hs, by simp [nonempty], fun d hd => ?_⟩
  rcases List.mem_append.mp hd with hd | hd
  · exact all' d hd
  · exact all d hd

/-- What begins with an exponent is taken to. -/
theorem IsExponent.exponentLength_ne_zero {ex : Text} (h : IsExponent ex) (r : Text) :
    exponentLength (ex ++ r) ≠ 0 := by
  have longer := h.append fun d hd => List.all_eq_true.mp (List.all_takeWhile (l := r)) d hd
  have := exponentLength_append longer (head?_dropWhile_any isDigitLike r)
  rw [List.append_assoc, List.takeWhile_append_dropWhile] at this
  rw [this]
  exact mt List.length_eq_zero_iff.mp longer.ne_nil

/-- **How a number ends**: its digits and points go on as far as they can, and then comes all of an
exponent or none of it. -/
theorem spanNumber_eq_iff {s sp r : Text} :
    spanNumber s = (sp, r) ↔ ∃ front ex, sp = front ++ ex ∧ s = front ++ ex ++ r ∧
      (∀ c ∈ front, isNumberChar c = true) ∧ (ex ++ r).head?.any isNumberChar = false ∧
      exponentLength (ex ++ r) = ex.length := by
  constructor
  · intro h
    obtain ⟨rfl, rfl⟩ := Prod.mk.injEq .. ▸ h
    have len : exponentLength (s.dropWhile isNumberChar) ≤ (s.dropWhile isNumberChar).length := by
      by_cases none : exponentLength (s.dropWhile isNumberChar) = 0
      · omega
      · obtain ⟨ex, r, whole, -, -, len⟩ := exists_exponent none
        rw [len, whole, List.length_append]
        omega
    refine ⟨s.takeWhile isNumberChar, _, rfl, ?_, ?_, ?_, ?_⟩
    · rw [List.append_assoc, List.take_append_drop, List.takeWhile_append_dropWhile]
    · exact fun c hc => List.all_eq_true.mp List.all_takeWhile c hc
    · rw [List.take_append_drop]
      exact head?_dropWhile_any _ _
    · rw [List.take_append_drop, List.length_take, Nat.min_eq_left len]
  · rintro ⟨front, ex, rfl, rfl, all, stop, len⟩
    have front' : (front ++ ex ++ r).takeWhile isNumberChar = front := by
      rw [List.append_assoc]
      exact takeWhile_append_of_all all stop
    have rest' : (front ++ ex ++ r).dropWhile isNumberChar = ex ++ r := by
      rw [List.append_assoc, List.dropWhile_append_of_pos all, dropWhile_eq_self_of_head stop]
    simp only [spanNumber, front', rest', len, List.take_left, List.drop_left]

theorem head?_append_any {p : Char → Bool} {x y : Text} (h : (x ++ y).head?.any p = false) :
    x.head?.any p = false := by
  cases x with
  | nil => rfl
  | cons c x => simpa using h

/-- A number ends where it does also if less follows. -/
theorem spanNumber_truncate {sp x y : Text} (h : spanNumber (sp ++ (x ++ y)) = (sp, x ++ y)) :
    spanNumber (sp ++ x) = (sp, x) := by
  obtain ⟨front, ex, rfl, -, all, stop, len⟩ := spanNumber_eq_iff.mp h
  refine spanNumber_eq_iff.mpr ⟨front, ex, rfl, rfl, all, ?_, ?_⟩
  · rw [← List.append_assoc] at stop
    exact head?_append_any stop
  · by_cases none : ex = []
    · subst none
      simp only [List.nil_append, List.length_nil] at len ⊢
      refine Decidable.byContradiction fun some => ?_
      obtain ⟨ex, r, rfl, hex, -⟩ := exists_exponent some
      rw [List.append_assoc] at len
      exact hex.exponentLength_ne_zero _ len
    · obtain ⟨ex', r, whole, hex, stop', len'⟩ := exists_exponent (s := ex ++ (x ++ y))
        (by simpa [len] using none)
      obtain ⟨rfl, rfl⟩ := List.append_inj whole (len ▸ len')
      exact exponentLength_append hex (head?_append_any stop')

/-- A number stays what it is in front of what cannot prolong it. -/
theorem spanNumber_extend {sp r : Text} (h : spanNumber sp = (sp, []))
    (stop : ∀ d ∈ r.head?, isNameChar d = false ∧ d ≠ '.') : spanNumber (sp ++ r) = (sp, r) := by
  obtain ⟨front, ex, rfl, -, all, inner, len⟩ := spanNumber_eq_iff.mp h
  have digit : r.head?.any isDigitLike = false := by
    cases r with
    | nil => rfl
    | cons d r => simpa using (isDigitLike_of_isNameChar_false (stop d rfl).1)
  refine spanNumber_eq_iff.mpr ⟨front, ex, rfl, rfl, all, ?_, ?_⟩
  · cases ex with
    | cons c ex => simpa using inner
    | nil =>
      cases r with
      | nil => rfl
      | cons d r => simpa using isNumberChar_of_isNameChar_false (stop d rfl).1 (stop d rfl).2
  · rw [List.append_nil] at len
    by_cases none : ex = []
    · subst none
      cases r with
      | nil => rfl
      | cons d r =>
        have : ¬(d = 'e' ∨ d = 'E') := by
          rintro (rfl | rfl)
          · exact absurd (stop _ rfl).1 (by decide)
          · exact absurd (stop _ rfl).1 (by decide)
        simp [exponentLength, this]
    · obtain ⟨ex', r', rfl, hex, -, len'⟩ := exists_exponent (s := ex) (by simpa [len] using none)
      have : r' = [] := by
        rw [len', List.length_append] at len
        exact List.length_eq_zero_iff.mp (by omega)
      subst this
      rw [List.append_nil]
      exact exponentLength_append hex digit

/-! ## 2. Where texts and symbols end -/

/-- A text ends at its closing quote, whatever comes after it. -/
theorem readQuoted?_eq_some {w s rest : Text} (h : readQuoted? w = some (s, rest)) :
    ∃ front, w = front ++ ['"'] ++ rest ∧
      ∀ r, readQuoted? (front ++ ['"'] ++ r) = some (s, r) := by
  fun_induction readQuoted? w generalizing s rest with
  | case1 => simp at h
  | case2 cs =>
    obtain ⟨rfl, rfl⟩ : [] = s ∧ cs = rest := by simpa using h
    exact ⟨[], rfl, fun r => rfl⟩
  | case3 c cs ih =>
    simp only [Option.map_eq_some_iff] at h
    obtain ⟨⟨s', rest'⟩, h', e⟩ := h
    obtain ⟨rfl, rfl⟩ : c :: s' = s ∧ rest' = rest := by simpa using e
    obtain ⟨front, rfl, all⟩ := ih h'
    refine ⟨'\\' :: c :: front, rfl, fun r => ?_⟩
    simp only [List.cons_append, readQuoted?, all r]
    rfl
  | case4 c cs quote escape ih =>
    simp only [Option.map_eq_some_iff] at h
    obtain ⟨⟨s', rest'⟩, h', e⟩ := h
    obtain ⟨rfl, rfl⟩ : c :: s' = s ∧ rest' = rest := by simpa using e
    obtain ⟨front, rfl, all⟩ := ih h'
    refine ⟨c :: front, rfl, fun r => ?_⟩
    have plain : c ≠ '\\' := by
      rintro rfl
      cases front with
      | nil =>
        exact escape '"' _ rfl rfl
      | cons d front => exact escape d _ rfl rfl
    rw [List.cons_append, List.cons_append, readQuoted?.eq_4 _ _ quote
      (fun _ _ h => absurd h plain), all r]
    rfl

theorem readQuoted?_append {cs s x : Text} (h : readQuoted? (cs ++ x) = some (s, x)) (y : Text) :
    readQuoted? (cs ++ y) = some (s, y) := by
  obtain ⟨front, whole, all⟩ := readQuoted?_eq_some h
  rw [List.append_cancel_right whole]
  exact all y

theorem getLast?_of_readQuoted? {cs s x : Text} (h : readQuoted? (cs ++ x) = some (s, x)) :
    cs.getLast? = some '"' := by
  obtain ⟨front, whole, -⟩ := readQuoted?_eq_some h
  rw [List.append_cancel_right whole, List.getLast?_concat]

/-- What starts like a number is no blank. -/
theorem isBlank_of_startsNumber {c : Char} {cs : Text} (h : startsNumber c cs = true) :
    isBlank c = false := by
  simp only [startsNumber, Bool.or_eq_true, Bool.and_eq_true, beq_iff_eq] at h
  rcases h with digit | ⟨rfl, -⟩
  · exact isBlank_of_isNameChar (isNameChar_of_isDigitLike digit)
  · decide

/-- A name starts like no number unless its first character is a digit. -/
theorem startsNumber_of_isNameStart {c : Char} (h : isNameStart c = true) (cs : Text) :
    startsNumber c cs = isDigitLike c := by
  have : (c == '.') = false := by
    rw [beq_eq_false_iff_ne]
    rintro rfl
    exact absurd h (by decide)
  simp [startsNumber, this]

/-! ## 3. Spellings -/

/-- The text spells the lexeme when another text follows it. -/
inductive Spells : Text → Lexeme → Text → Prop
  | number {c : Char} {cs rest : Text} {x : Float} (starts : startsNumber c (cs ++ rest) = true)
      (span : spanNumber (c :: cs ++ rest) = (c :: cs, rest)) (read : readFloat? (c :: cs) = some x) :
      Spells (c :: cs) (.number x) rest
  | name {c : Char} {cs rest : Text} (start : isNameStart c = true) (digit : isDigitLike c = false)
      (inside : ∀ d ∈ cs, isNameChar d = true) (stop : rest.head?.any isNameChar = false) :
      Spells (c :: cs) (.name (c :: cs)) rest
  | text {cs s rest : Text} (read : readQuoted? (cs ++ rest) = some (s, rest)) :
      Spells ('"' :: cs) (.text s) rest
  | pair {c d : Char} {s : Symbol} {rest : Text} (pair : Symbol.ofPair? c d = some s) :
      Spells [c, d] (.symbol s) rest
  | single {c : Char} {s : Symbol} {rest : Text} (single : Symbol.ofChar? c = some s)
      (stop : ∀ d ∈ rest.head?, Symbol.ofPair? c d = none) :
      Spells [c] (.symbol s) rest

/-- The characters that symbols start with. -/
def symbolChars : List Char :=
  ['+', '-', '*', '/', '%', '^', '>', '<', '(', ')', ',', ';', '?', ':', '=', '!']

theorem mem_symbolChars_of_ofChar? {c : Char} {s : Symbol} (h : Symbol.ofChar? c = some s) :
    c ∈ symbolChars := by
  unfold Symbol.ofChar? at h
  split at h <;> first | decide | simp at h

theorem mem_symbolChars_of_ofPair? {c d : Char} {s : Symbol} (h : Symbol.ofPair? c d = some s) :
    c ∈ symbolChars ∧ d = '=' := by
  unfold Symbol.ofPair? at h
  split at h <;> first | exact ⟨by decide, rfl⟩ | simp at h

theorem eq_of_ofChar?_closeParen {c : Char} (h : Symbol.ofChar? c = some .closeParen) :
    c = ')' := by
  unfold Symbol.ofChar? at h
  split at h <;> first | rfl | simp at h

theorem class_of_mem_symbolChars {c : Char} (h : c ∈ symbolChars) :
    isBlank c = false ∧ isNameChar c = false ∧ c ≠ '"' ∧ c ≠ '.' := by
  revert c
  decide

/-- The characters of symbols start nothing else. -/
theorem starts_of_mem_symbolChars {c : Char} (h : c ∈ symbolChars) (cs : Text) :
    isNameStart c = false ∧ c ≠ '"' ∧ startsNumber c cs = false := by
  obtain ⟨-, name, quote, point⟩ := class_of_mem_symbolChars h
  refine ⟨Bool.eq_false_iff.mpr fun start => ?_, quote, ?_⟩
  · exact Bool.eq_false_iff.mp name (isNameChar_of_isNameStart start)
  · simp [startsNumber, isDigitLike_of_isNameChar_false name, point]

/-- What the lexer takes for a symbol spells it. -/
theorem Spells.of_readSymbol? {c : Char} {cs rest : Text} {l : Lexeme}
    (h : readSymbol? c (cs ++ rest) = some ⟨l, c :: cs, rest⟩) : Spells (c :: cs) l rest := by
  unfold readSymbol? at h
  split at h
  · rename_i d ds whole
    split at h
    · rename_i s pair
      simp only [Option.some.injEq, Spelled.mk.injEq, List.cons.injEq, true_and] at h
      obtain ⟨rfl, rfl, rfl⟩ := h
      exact .pair pair
    · rename_i none
      simp only [Option.map_eq_some_iff, Spelled.mk.injEq, List.cons.injEq, true_and] at h
      obtain ⟨s, single, rfl, rfl, -⟩ := h
      rw [List.nil_append] at whole
      exact .single single (by simpa [whole] using none)
  · rename_i whole
    simp only [Option.map_eq_some_iff, Spelled.mk.injEq, List.cons.injEq, true_and] at h
    obtain ⟨s, single, rfl, rfl, -⟩ := h
    rw [List.nil_append] at whole
    exact .single single (by simp [whole])

/-- What the lexer takes for a token spells it. -/
theorem Spells.of_readToken {p : Nat} {c : Char} {cs rest : Text} {l : Lexeme}
    (h : readToken p c (cs ++ rest) = .ok ⟨l, c :: cs, rest⟩) : Spells (c :: cs) l rest := by
  simp only [readToken] at h
  split at h
  · rename_i starts
    split at h
    · rename_i x read
      simp only [Except.ok.injEq, Spelled.mk.injEq] at h
      obtain ⟨rfl, spelling, rest'⟩ := h
      exact .number starts (Prod.ext spelling rest') (spelling ▸ read)
    · simp at h
  rename_i starts
  split at h
  · rename_i start
    simp only [Except.ok.injEq, Spelled.mk.injEq, List.cons.injEq, true_and] at h
    obtain ⟨rfl, spelling, rest'⟩ := h
    rw [spelling]
    have digit : isDigitLike c = false := by
      rw [← startsNumber_of_isNameStart start]
      simpa using starts
    refine .name start digit (fun d hd => ?_) ?_
    · exact List.all_eq_true.mp (spelling ▸ List.all_takeWhile) d hd
    · rw [← rest']
      exact head?_dropWhile_any _ _
  split at h
  · rename_i quote
    obtain rfl : c = '"' := by simpa using quote
    split at h
    · rename_i s rest' read
      simp only [Except.ok.injEq, Spelled.mk.injEq] at h
      obtain ⟨rfl, -, rfl⟩ := h
      exact .text read
    · simp at h
  split at h
  · rename_i spelled read
    obtain rfl : spelled = _ := by simpa using h
    exact .of_readSymbol? read
  · simp at h

/-- A token is read off the front of the text, and spelled there. -/
theorem exists_spells_of_readToken {p : Nat} {c : Char} {cs : Text} {t : Spelled}
    (h : readToken p c cs = .ok t) :
    ∃ l sp rest, t = ⟨l, c :: sp, rest⟩ ∧ cs = sp ++ rest ∧ Spells (c :: sp) l rest := by
  obtain ⟨whole, nonempty⟩ := readToken_append h
  obtain ⟨l, spelling, rest⟩ := t
  obtain ⟨d, sp, rfl⟩ := List.exists_cons_of_ne_nil nonempty
  obtain ⟨rfl, rfl⟩ : d = c ∧ sp ++ rest = cs := by simpa using whole
  exact ⟨l, sp, rest, rfl, rfl, .of_readToken h⟩

/-- What spells a lexeme is read as that. -/
theorem Spells.readToken {c : Char} {cs rest : Text} {l : Lexeme} (h : Spells (c :: cs) l rest)
    (p : Nat) : readToken p c (cs ++ rest) = .ok ⟨l, c :: cs, rest⟩ := by
  cases h with
  | number starts span read =>
    rw [List.cons_append] at span
    simp [Lexer.readToken, starts, span, read]
  | name start digit inside stop =>
    have front := takeWhile_append_of_all inside stop
    have back : (cs ++ rest).dropWhile isNameChar = rest := by
      rw [List.dropWhile_append_of_pos inside, dropWhile_eq_self_of_head stop]
    simp [Lexer.readToken, startsNumber_of_isNameStart start, digit, start, front, back]
  | text read =>
    have starts : startsNumber '"' (cs ++ rest) = false := rfl
    have start : isNameStart '"' = false := by decide
    have used : cs.length + rest.length + 1 - rest.length = cs.length + 1 := by omega
    simp [Lexer.readToken, starts, start, read, used]
  | @pair _ d _ _ pair =>
    obtain ⟨start, quote, starts⟩ :=
      starts_of_mem_symbolChars (mem_symbolChars_of_ofPair? pair).1 (d :: rest)
    simp [Lexer.readToken, starts, start, quote, readSymbol?, pair]
  | single single stop =>
    obtain ⟨start, quote, starts⟩ :=
      starts_of_mem_symbolChars (mem_symbolChars_of_ofChar? single) rest
    cases rest with
    | nil => simp [Lexer.readToken, starts, start, quote, readSymbol?, single]
    | cons d rest =>
      have none : Symbol.ofPair? c d = none := stop d rfl
      simp [Lexer.readToken, starts, start, quote, readSymbol?, single, none]

/-- A spelling starts with no blank. -/
theorem Spells.isBlank {c : Char} {cs rest : Text} {l : Lexeme} (h : Spells (c :: cs) l rest) :
    isBlank c = false := by
  cases h with
  | number starts => exact isBlank_of_startsNumber starts
  | name start => exact isBlank_of_isNameChar (isNameChar_of_isNameStart start)
  | text => decide
  | pair pair => exact (class_of_mem_symbolChars (mem_symbolChars_of_ofPair? pair).1).1
  | single single => exact (class_of_mem_symbolChars (mem_symbolChars_of_ofChar? single)).1

theorem Spells.ne_nil {sp rest : Text} {l : Lexeme} (h : Spells sp l rest) : sp ≠ [] := by
  cases h <;> simp

/-- A spelling may lose any part of what follows it from the back. -/
theorem Spells.truncate {sp x y : Text} {l : Lexeme} (h : Spells sp l (x ++ y)) :
    Spells sp l x := by
  cases h with
  | @number c cs _ _ starts span read =>
    refine .number ?_ (spanNumber_truncate span) read
    cases cs with
    | cons d cs => exact starts
    | nil =>
      simp only [startsNumber, Bool.or_eq_true, Bool.and_eq_true, beq_iff_eq] at starts ⊢
      refine starts.imp id fun point => ?_
      obtain ⟨rfl, -⟩ := point
      have : readFloat? ['.'] = none := by decide
      rw [this] at read
      exact absurd read (by simp)
  | name start digit inside stop => exact .name start digit inside (head?_append_any stop)
  | text read => exact .text (readQuoted?_append read x)
  | pair pair => exact .pair pair
  | single single stop =>
    refine .single single fun d hd => stop d ?_
    simp only [Option.mem_def] at hd ⊢
    rw [List.head?_append, hd]
    rfl

/-! ## 4. What may follow -/

/-- May a text follow a lexeme without prolonging it? -/
def Ends : Lexeme → Text → Prop
  | .number _, rest => ∀ d ∈ rest.head?, isNameChar d = false ∧ d ≠ '.'
  | .name _, rest => ∀ d ∈ rest.head?, isNameChar d = false
  | .text _, _ => True
  | .symbol s, rest => s = .closeParen ∨ ∀ d ∈ rest.head?, d ≠ '='

/-- A spelling stays one in front of what cannot prolong it. -/
theorem Spells.extend {sp rest : Text} {l : Lexeme} (h : Spells sp l []) (ends : Ends l rest) :
    Spells sp l rest := by
  cases h with
  | @number c cs _ _ starts span read =>
    rw [List.append_nil] at starts span
    refine .number ?_ (spanNumber_extend span ends) read
    cases cs with
    | cons d cs => exact starts
    | nil =>
      have : isDigitLike c = true := by simpa [startsNumber] using starts
      simp [startsNumber, this]
  | name start digit inside stop =>
    refine .name start digit inside ?_
    cases rest with
    | nil => rfl
    | cons d rest => simpa using ends d rfl
  | text read => exact .text (readQuoted?_append read rest)
  | pair pair => exact .pair pair
  | single single stop =>
    refine .single single fun d hd => Option.eq_none_iff_forall_not_mem.mpr fun s hs => ?_
    rcases ends with rfl | ends
    · rw [eq_of_ofChar?_closeParen single] at hs
      exact absurd hs (by simp [Symbol.ofPair?])
    · exact ends d hd (mem_symbolChars_of_ofPair? hs).2

/-! ## 5. Texts cut into lexemes -/

/-- The text is cut into the lexemes, the blanks between them left out. -/
inductive Lexes : Text → List Lexeme → Prop
  | nil : Lexes [] []
  | blank {c : Char} {cs : Text} {ls : List Lexeme} (blank : isBlank c = true)
      (more : Lexes cs ls) : Lexes (c :: cs) ls
  | token {sp rest : Text} {l : Lexeme} {ls : List Lexeme} (spells : Spells sp l rest)
      (more : Lexes rest ls) : Lexes (sp ++ rest) (l :: ls)

/-- A spelling alone is cut into its lexeme. -/
theorem Spells.lexes {sp rest : Text} {l : Lexeme} (h : Spells sp l rest) : Lexes sp [l] := by
  have alone : Spells sp l ([] ++ rest) := h
  have whole := Lexes.token alone.truncate .nil
  rwa [List.append_nil] at whole

/-- A token is taken off the front of the text, and the lexer goes on with what follows it. -/
theorem Spells.scanFrom_append {sp rest : Text} {l : Lexeme} (spells : Spells sp l rest)
    (place : Nat) :
    Lexer.scanFrom place (sp ++ rest) = (Lexer.scanFrom (place + sp.length) rest).map fun scanned =>
      ⟨⟨l, place⟩ :: scanned.tokens, scanned.finish⟩ := by
  obtain ⟨c, cs, rfl⟩ := List.exists_cons_of_ne_nil spells.ne_nil
  rw [List.cons_append, Lexer.scanFrom, if_neg (by simp [spells.isBlank])]
  split
  · rename_i fault read
    rw [spells.readToken place] at read
    cases read
  · rename_i t read
    rw [spells.readToken place, Except.ok.injEq] at read
    subst read
    cases Lexer.scanFrom (place + (c :: cs).length) rest <;> rfl

/-- The lexer finds the lexemes that a text is cut into. -/
theorem Lexes.scanFrom {s : Text} {ls : List Lexeme} (h : Lexes s ls) (p : Nat) :
    ∃ scanned, scanFrom p s = .ok scanned ∧ scanned.tokens.map Token.lexeme = ls := by
  induction h generalizing p with
  | nil => exact ⟨⟨[], p⟩, by simp [Lexer.scanFrom]⟩
  | blank blank _ ih =>
    obtain ⟨scanned, run, tokens⟩ := ih (p + 1)
    exact ⟨scanned, by rw [Lexer.scanFrom, if_pos blank, run], tokens⟩
  | @token sp rest l ls spells _ ih =>
    obtain ⟨scanned, run, rfl⟩ := ih (p + sp.length)
    exact ⟨⟨⟨l, p⟩ :: scanned.tokens, scanned.finish⟩, by rw [spells.scanFrom_append, run]; rfl, rfl⟩

/-- A text is cut into the lexemes that the lexer finds. -/
theorem lexes_of_scanFrom {p : Nat} {s : Text} {scanned : Scanned}
    (h : scanFrom p s = .ok scanned) : Lexes s (scanned.tokens.map Token.lexeme) := by
  fun_induction Lexer.scanFrom p s generalizing scanned with
  | case1 p =>
    obtain rfl : (⟨[], p⟩ : Scanned) = scanned := by simpa using h
    exact .nil
  | case2 p c cs blank ih => exact .blank blank (ih h)
  | case3 => simp at h
  | case4 => simp at h
  | case5 p c cs blank t read scanned' run ih =>
    obtain rfl : _ = scanned := by simpa using h
    obtain ⟨l, sp, rest, rfl, rfl, spells⟩ := exists_spells_of_readToken read
    exact .token spells (ih run)

/-- **The lexer cuts a text into lexemes**, and there is one way to do so. -/
theorem lexes_iff_scan {s : Text} {ls : List Lexeme} :
    Lexes s ls ↔ ∃ scanned, scan s = .ok scanned ∧ scanned.tokens.map Token.lexeme = ls :=
  ⟨fun h => h.scanFrom 0, fun ⟨_, run, tokens⟩ => tokens ▸ lexes_of_scanFrom run⟩

/-- A text is cut between any two of its lexemes. -/
theorem Lexes.split {s : Text} {front back : List Lexeme} (h : Lexes s (front ++ back)) :
    ∃ x y, s = x ++ y ∧ Lexes x front ∧ Lexes y back := by
  generalize whole : front ++ back = ls at h
  induction h generalizing front with
  | nil =>
    obtain ⟨rfl, rfl⟩ := List.append_eq_nil_iff.mp whole
    exact ⟨[], [], rfl, .nil, .nil⟩
  | @blank c cs ls blank more ih =>
    obtain ⟨x, y, rfl, hx, hy⟩ := ih whole
    exact ⟨c :: x, y, rfl, .blank blank hx, hy⟩
  | @token sp rest l ls spells more ih =>
    cases front with
    | nil =>
      obtain rfl : back = l :: ls := whole
      exact ⟨[], sp ++ rest, rfl, .nil, .token spells more⟩
    | cons l' front =>
      obtain ⟨rfl, inner⟩ : l' = l ∧ front ++ back = ls := by simpa using whole
      obtain ⟨x, y, rfl, hx, hy⟩ := ih inner
      exact ⟨sp ++ x, y, by rw [List.append_assoc], .token spells.truncate hx, hy⟩

theorem Lexes.eq_nil {ls : List Lexeme} (h : Lexes [] ls) : ls = [] := by
  generalize empty : ([] : Text) = s at h
  cases h with
  | nil => rfl
  | blank => cases empty
  | token spells => exact absurd (List.append_eq_nil_iff.mp empty.symm).1 spells.ne_nil

theorem Lexes.uncons {s : Text} {l : Lexeme} {ls : List Lexeme} (h : Lexes s (l :: ls)) :
    ∃ t rest, s = t ++ rest ∧ Lexes t [l] ∧ Lexes rest ls :=
  @Lexes.split s [l] ls h

/-- A text is cut around any of its lexemes. -/
theorem Lexes.split_at {s : Text} {l : Lexeme} {front back : List Lexeme}
    (h : Lexes s (front ++ l :: back)) :
    ∃ x t y, s = x ++ (t ++ y) ∧ Lexes x front ∧ Lexes t [l] ∧ Lexes y back := by
  obtain ⟨x, rest, rfl, hx, hrest⟩ := h.split
  obtain ⟨t, y, rfl, ht, hy⟩ := hrest.uncons
  exact ⟨x, t, y, rfl, hx, ht, hy⟩

/-! ## 6. Putting texts together -/

/-- May the second lexeme follow the first without a blank between them? -/
def Apart : Lexeme → Lexeme → Prop
  | .symbol .closeParen, _ => True
  | .symbol _, l => l ≠ .symbol (.operator .equal)
  | _, .symbol _ => True
  | _, _ => False

/-- A blank prolongs nothing. -/
theorem ends_of_isBlank {c : Char} (h : isBlank c = true) (l : Lexeme) (cs : Text) :
    Ends l (c :: cs) := by
  have name := isNameChar_of_isBlank h
  have point : c ≠ '.' := by
    rintro rfl
    exact absurd h (by decide)
  have equal : c ≠ '=' := by
    rintro rfl
    exact absurd h (by decide)
  cases l <;> simp [Ends, name, point, equal]

/-- Only `==` starts with an equals sign. -/
theorem Spells.ne_equals {c : Char} {cs rest : Text} {l : Lexeme} (h : Spells (c :: cs) l rest)
    (other : l ≠ .symbol (.operator .equal)) : c ≠ '=' := by
  rintro rfl
  cases h with
  | number starts => exact absurd starts (by simp [startsNumber, show isDigitLike '=' = false by decide])
  | name start => exact absurd start (by decide)
  | @pair _ d _ _ pair =>
    obtain rfl := (mem_symbolChars_of_ofPair? pair).2
    simp [Symbol.ofPair?] at pair
    exact other (pair ▸ rfl)
  | single single => simp [Symbol.ofChar?] at single

/-- A symbol starts with one of their characters. -/
theorem Spells.mem_symbolChars {c : Char} {cs rest : Text} {s : Symbol}
    (h : Spells (c :: cs) (.symbol s) rest) : c ∈ symbolChars := by
  cases h with
  | pair pair => exact (mem_symbolChars_of_ofPair? pair).1
  | single single => exact mem_symbolChars_of_ofChar? single

theorem Spells.ends {l l' : Lexeme} {c : Char} {cs rest : Text} (h : Spells (c :: cs) l' rest)
    (apart : Apart l l') (more : Text) : Ends l (c :: cs ++ more) := by
  cases l with
  | symbol s =>
    by_cases close : s = .closeParen
    · exact .inl close
    · have other : l' ≠ .symbol (.operator .equal) := by
        cases s <;> first | exact apart | exact absurd rfl close
      exact .inr fun d hd => by
        obtain rfl : c = d := by simpa using hd
        exact h.ne_equals other
  | number x =>
    cases l' with
    | symbol s' =>
      obtain ⟨-, name, -, point⟩ := class_of_mem_symbolChars h.mem_symbolChars
      simp [Ends, name, point]
    | _ => exact apart.elim
  | name n =>
    cases l' with
    | symbol s' =>
      obtain ⟨-, name, -, -⟩ := class_of_mem_symbolChars h.mem_symbolChars
      simp [Ends, name]
    | _ => exact apart.elim
  | text t => trivial

/-- A lexeme ends where one begins that may follow it. -/
theorem Lexes.ends {l : Lexeme} {ls : List Lexeme} {s : Text} (h : Lexes s ls)
    (apart : ∀ l' ∈ ls.head?, Apart l l') : Ends l s := by
  cases h with
  | nil => cases l <;> simp [Ends]
  | blank blank => exact ends_of_isBlank blank l _
  | @token sp rest l' ls spells more =>
    obtain ⟨c, cs, rfl⟩ := List.exists_cons_of_ne_nil spells.ne_nil
    exact spells.ends (apart l' rfl) rest

/-- **Texts may be put together** where their lexemes may follow each other. -/
theorem Lexes.append {x y : Text} {front back : List Lexeme} (hx : Lexes x front)
    (hy : Lexes y back) (apart : (front ++ back).IsChain Apart) : Lexes (x ++ y) (front ++ back) := by
  induction hx with
  | nil => exact hy
  | blank blank _ ih => exact .blank blank (ih apart)
  | @token sp rest l ls spells more ih =>
    have whole := ih (List.IsChain.of_cons apart)
    rw [List.append_assoc]
    refine .token ?_ whole
    have alone : Spells sp l ([] ++ rest) := spells
    exact alone.truncate.extend (whole.ends fun l' hl' => List.IsChain.rel_head? apart hl')

/-- Several texts, one after the other. -/
theorem Lexes.flatten {xs : List Text} {lss : List (List Lexeme)} (h : List.Forall₂ Lexes xs lss)
    (apart : lss.flatten.IsChain Apart) : Lexes xs.flatten lss.flatten := by
  induction h with
  | nil => exact .nil
  | cons first _ ih => exact first.append (ih apart.right_of_append) apart

theorem lexes_of_blanks {bs : Text} (blanks : ∀ b ∈ bs, isBlank b = true) : Lexes bs [] := by
  induction bs with
  | nil => exact .nil
  | cons b bs ih => exact .blank (blanks b (by simp)) (ih fun c hc => blanks c (by simp [hc]))

theorem Lexes.blanks_append {bs s : Text} {ls : List Lexeme} (h : Lexes s ls)
    (blanks : ∀ b ∈ bs, isBlank b = true) : Lexes (bs ++ s) ls := by
  induction bs with
  | nil => exact h
  | cons b bs ih => exact .blank (blanks b (by simp)) (ih fun c hc => blanks c (by simp [hc]))

theorem Lexes.append_blanks {bs s : Text} {ls : List Lexeme} (h : Lexes s ls)
    (apart : ls.IsChain Apart) (blanks : ∀ b ∈ bs, isBlank b = true) : Lexes (s ++ bs) ls := by
  simpa using h.append (lexes_of_blanks blanks) (by simpa using apart)

/-- A symbol of one character with blanks around it. -/
theorem lexes_of_ofChar? {c : Char} {s : Symbol} {front back : Text}
    (single : Symbol.ofChar? c = some s) (blankFront : ∀ b ∈ front, isBlank b = true)
    (blankBack : ∀ b ∈ back, isBlank b = true) : Lexes (front ++ c :: back) [.symbol s] := by
  have spells : Spells [c] (.symbol s) back := by
    refine .single single fun d hd => Option.eq_none_iff_forall_not_mem.mpr fun s hs => ?_
    obtain rfl := (mem_symbolChars_of_ofPair? hs).2
    exact absurd (blankBack _ (List.mem_of_head? hd)) (by decide)
  exact .blanks_append (.token spells (lexes_of_blanks blankBack)) blankFront

theorem lexes_symbol {c : Char} {s : Symbol} (single : Symbol.ofChar? c = some s) :
    Lexes [c] [.symbol s] :=
  @lexes_of_ofChar? c s [] [] single nofun nofun

theorem lexes_spaced {c : Char} {s : Symbol} (single : Symbol.ofChar? c = some s) :
    Lexes [' ', c, ' '] [.symbol s] :=
  @lexes_of_ofChar? c s [' '] [' '] single (by decide) (by decide)

/-! ## 7. Blanks at the ends -/

theorem isBlank_of_isNumberChar {c : Char} (h : isNumberChar c = true) : isBlank c = false := by
  simp only [isNumberChar, Bool.or_eq_true, beq_iff_eq] at h
  rcases h with digit | rfl
  · exact isBlank_of_isNameChar (isNameChar_of_isDigitLike digit)
  · decide

theorem IsExponent.isBlank_of_getLast? {ex : Text} (h : IsExponent ex) :
    ∀ c ∈ ex.getLast?, isBlank c = false := by
  obtain ⟨mark, sign, digits, rfl, -, -, nonempty, all⟩ := h.parts
  intro c hc
  rw [← List.cons_append, List.getLast?_append_of_ne_nil _ nonempty] at hc
  exact isBlank_of_isNameChar (isNameChar_of_isDigitLike (all c (List.mem_of_getLast? hc)))

/-- A number is digits and points, and perhaps an exponent. -/
theorem Spells.number_parts {sp rest : Text} {x : Float} (h : Spells sp (.number x) rest) :
    ∃ front ex, sp = front ++ ex ∧ (∀ c ∈ front, isNumberChar c = true) ∧
      (ex = [] ∨ IsExponent ex) := by
  cases h with
  | number starts span read =>
    obtain ⟨front, ex, whole, -, all, -, len⟩ := spanNumber_eq_iff.mp span
    refine ⟨front, ex, whole, all, ?_⟩
    by_cases none : ex = []
    · exact .inl none
    · obtain ⟨ex', r, split, hex, -, len'⟩ := exists_exponent (s := ex ++ rest)
        (by rw [len]; exact mt List.length_eq_zero_iff.mp none)
      obtain ⟨rfl, -⟩ := List.append_inj split (len ▸ len')
      exact .inr hex

/-- The characters that numbers are written with. -/
theorem Spells.mem_number {sp rest : Text} {x : Float} (h : Spells sp (.number x) rest) {c : Char}
    (mem : c ∈ sp) : isNumberChar c = true ∨ c ∈ ['e', 'E', '+', '-'] := by
  obtain ⟨front, ex, rfl, all, hex⟩ := h.number_parts
  rcases List.mem_append.mp mem with mem | mem
  · exact .inl (all c mem)
  rcases hex with rfl | hex
  · cases mem
  obtain ⟨mark, sign, digits, rfl, hm, hs, -, digit⟩ := hex.parts
  rcases List.mem_cons.mp mem with rfl | mem
  · rcases hm with rfl | rfl <;> exact .inr (by decide)
  rcases List.mem_append.mp mem with mem | mem
  · have signs : ∀ d ∈ sign, d ∈ ['e', 'E', '+', '-'] := by
      rcases hs with rfl | rfl | rfl <;> decide
    exact .inr (signs c mem)
  · exact .inl (by simp [isNumberChar, digit c mem])

/-- A spelling ends with no blank. -/
theorem Spells.isBlank_of_getLast? {sp rest : Text} {l : Lexeme} (h : Spells sp l rest) :
    ∀ c ∈ sp.getLast?, Haulage.isBlank c = false := by
  cases h with
  | number starts span read =>
    obtain ⟨front, ex, whole, all, none | hex⟩ := (Spells.number starts span read).number_parts
    · rw [whole, none, List.append_nil]
      exact fun c hc => isBlank_of_isNumberChar (all c (List.mem_of_getLast? hc))
    · rw [whole, List.getLast?_append_of_ne_nil _ hex.ne_nil]
      exact hex.isBlank_of_getLast?
  | @name c cs _ start digit inside stop =>
    intro d hd
    rcases List.mem_cons.mp (List.mem_of_getLast? hd) with rfl | hd
    · exact isBlank_of_isNameChar (isNameChar_of_isNameStart start)
    · exact isBlank_of_isNameChar (inside d hd)
  | @text cs s _ read =>
    intro d hd
    rw [List.getLast?_cons, getLast?_of_readQuoted? read] at hd
    obtain rfl : '"' = d := by simpa using hd
    decide
  | pair pair =>
    obtain rfl := (mem_symbolChars_of_ofPair? pair).2
    simp
    decide
  | single single =>
    simpa using (class_of_mem_symbolChars (mem_symbolChars_of_ofChar? single)).1

/-- A blank in front of a text changes nothing. -/
theorem lexes_cons_of_isBlank {c : Char} {cs : Text} {ls : List Lexeme} (blank : isBlank c = true) :
    Lexes (c :: cs) ls ↔ Lexes cs ls := by
  refine ⟨fun h => ?_, .blank blank⟩
  generalize whole : c :: cs = s at h
  cases h with
  | nil => cases whole
  | blank _ more =>
    cases whole
    exact more
  | token spells more =>
    obtain ⟨d, ds, rfl⟩ := List.exists_cons_of_ne_nil spells.ne_nil
    cases whole
    exact absurd spells.isBlank (by simp [blank])

theorem Lexes.stripLeft {s : Text} {ls : List Lexeme} (h : Lexes s ls) : Lexes s.stripLeft ls := by
  induction s with
  | nil => exact h
  | cons c s ih =>
    simp only [Text.stripLeft, List.dropWhile_cons]
    split
    · rename_i blank
      exact ih ((lexes_cons_of_isBlank blank).mp h)
    · exact h

/-- Blanks at the end of a text may go. -/
theorem Lexes.of_append_blanks {x bs : Text} {ls : List Lexeme} (h : Lexes (x ++ bs) ls)
    (blanks : ∀ b ∈ bs, isBlank b = true) : Lexes x ls := by
  generalize whole : x ++ bs = s at h
  induction h generalizing x bs with
  | nil =>
    obtain ⟨rfl, rfl⟩ := List.append_eq_nil_iff.mp whole
    exact .nil
  | @blank c cs ls blank more ih =>
    cases x with
    | nil =>
      cases bs with
      | nil => cases whole
      | cons b bs =>
        obtain ⟨rfl, rfl⟩ : b = c ∧ bs = cs := by simpa using whole
        exact ih (fun b hb => blanks b (List.mem_cons_of_mem _ hb)) (List.nil_append _)
    | cons d x =>
      obtain ⟨rfl, inner⟩ : d = c ∧ x ++ bs = cs := by simpa using whole
      exact .blank blank (ih blanks inner)
  | @token sp rest l ls spells more ih =>
    rcases List.append_eq_append_iff.mp whole.symm with ⟨a, rfl, inner⟩ | ⟨a, split, inner⟩
    · exact .token (inner ▸ spells).truncate (ih blanks inner.symm)
    · cases hlast : a.getLast? with
      | none =>
        obtain rfl := List.getLast?_eq_none_iff.mp hlast
        obtain rfl : sp = x := by simpa using split
        obtain rfl : bs = rest := by simpa using inner
        have more' := ih blanks (List.nil_append _)
        simpa using Lexes.token (spells.truncate (x := [])) more'
      | some b =>
        -- the spelling would end among the blanks
        have last : b ∈ sp.getLast? := by simp [split, List.getLast?_append, hlast]
        have inside : b ∈ bs := inner ▸ List.mem_append_left _ (List.mem_of_getLast? hlast)
        exact absurd (blanks b inside) (by simp [spells.isBlank_of_getLast? b last])

theorem Lexes.stripRight {s : Text} {ls : List Lexeme} (h : Lexes s ls) : Lexes s.stripRight ls := by
  have whole : s.stripRight ++ (s.reverse.takeWhile isBlank).reverse = s := by
    rw [Text.stripRight, ← List.reverse_append, List.takeWhile_append_dropWhile, List.reverse_reverse]
  refine Lexes.of_append_blanks (whole.symm ▸ h) fun b hb => ?_
  exact List.all_eq_true.mp List.all_takeWhile b (List.mem_reverse.mp hb)

/-- Without the blanks at its ends a text is cut as with them. -/
theorem Lexes.strip {s : Text} {ls : List Lexeme} (h : Lexes s ls) : Lexes s.strip ls :=
  h.stripLeft.stripRight

end Lexer

end Haulage
