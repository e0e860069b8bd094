/-
# How choices between numbers are written

A choice that can be made without evaluating anything holds three numbers.  Each is unsigned, or has
a minus in front, or that and parentheses around it (`IsLiteral`).  Its digits may be of any script,
and so may those of the lexer: every such number is a number of the language
(`IsUnsigned.spells`), the one that the choice itself reads it as (`IsLiteral.exists_denotes`).  The
choice as a whole is a form between parentheses (`exists_parts_of_choose?`).
-/
import Haulage.Proofs.Formula.Cutting
import Haulage.Proofs.Formula.Form
import Haulage.Proofs.Number.Rounding
import Haulage.Proofs.Number.Written
import Haulage.Formula.Choice
import Haulage.Formula.Evaluation

namespace Haulage

open Lexer (Spells Lexes Unquoted)

namespace NumericChoice

/-! ## 1. Numbers in choices -/

/-- One or more decimal digits. -/
def IsRow (s : Text) : Prop := s ≠ [] ∧ ∀ c ∈ s, isDecimalDigit c = true

/-- Nothing, or a point with digits behind it. -/
def IsFraction (s : Text) : Prop := s = [] ∨ ∃ ds, s = '.' :: ds ∧ IsRow ds

/-- Nothing, or the mark of an exponent, perhaps a sign, and digits. -/
def IsPower (s : Text) : Prop :=
  s = [] ∨ ∃ mark sign ds, s = mark :: (sign ++ ds) ∧ (mark = 'e' ∨ mark = 'E') ∧
    (sign = [] ∨ sign = ['+'] ∨ sign = ['-']) ∧ IsRow ds

/-- A number without a sign, as choices hold them. -/
def IsUnsigned (s : Text) : Prop :=
  ∃ whole part power, s = whole ++ (part ++ power) ∧ IsRow whole ∧ IsFraction part ∧ IsPower power

theorem isRow_take {s : Text} (some : digitCount s ≠ 0) : IsRow (s.take (digitCount s)) := by
  have front : s.take (digitCount s) = s.takeWhile isDecimalDigit :=
    calc
      s.take (digitCount s)
          = (s.takeWhile isDecimalDigit ++ s.dropWhile isDecimalDigit).take (digitCount s) := by
            rw [List.takeWhile_append_dropWhile]
      _ = s.takeWhile isDecimalDigit := List.take_left
  rw [front]
  refine ⟨fun none => some ?_, fun c hc => List.all_eq_true.mp List.all_takeWhile c hc⟩
  rw [digitCount, none]
  rfl

theorem isFraction_take (s : Text) : IsFraction (s.take (fractionLength s)) := by
  unfold fractionLength
  split
  · rename_i cs
    split
    · exact .inl rfl
    · rename_i some
      exact .inr ⟨cs.take (digitCount cs), rfl, isRow_take some⟩
  · exact .inl rfl

theorem isPower_take (s : Text) : IsPower (s.take (exponentLength s)) := by
  unfold exponentLength
  split
  · exact .inl rfl
  rename_i c cs
  split
  · rename_i mark
    have mark : c = 'e' ∨ c = 'E' := by simpa using mark
    split
    · exact .inl rfl
    rename_i d ds
    split
    · rename_i sign
      have sign : [d] = ['+'] ∨ [d] = ['-'] := by simpa using sign
      split
      · exact .inl rfl
      · rename_i some
        exact .inr ⟨c, [d], ds.take (digitCount ds), rfl, mark, .inr sign, isRow_take some⟩
    · split
      · exact .inl rfl
      · rename_i some
        exact .inr ⟨c, [], _, rfl, mark, .inl rfl, isRow_take some⟩
  · exact .inl rfl

theorem isUnsigned_take {s : Text} {n : Nat} (h : unsignedLength? s = some n) :
    IsUnsigned (s.take n) := by
  rw [unsignedLength?] at h
  dsimp only at h
  split at h
  · cases h
  · rename_i some
    obtain rfl := Option.some.inj h
    exact ⟨s.take (digitCount s), _, _, by rw [List.take_add, List.take_add, List.append_assoc],
      isRow_take some, isFraction_take _, isPower_take _⟩

/-! ### They are read -/

theorem IsRow.filterMap_ne_nil {s : Text} (h : IsRow s) : s.filterMap decimalDigit? ≠ [] :=
  filterMap_decimalDigit?_ne_nil h.2 h.1

theorem IsPower.stop {s : Text} (h : IsPower s) :
    ∀ c ∈ s.head?, isDecimalDigit c = false ∧ c ≠ '_' ∧ c ≠ '.' := by
  rcases h with rfl | ⟨mark, sign, ds, rfl, rfl | rfl, -⟩
  · nofun
  all_goals
    intro c hc
    obtain rfl := Option.some.inj hc
    decide

theorem IsPower.readExponent? {s : Text} (h : IsPower s) :
    ∃ n, Haulage.readExponent? s = some n := by
  rcases h with rfl | ⟨mark, sign, ds, rfl, marks, signs, row⟩
  · exact ⟨0, rfl⟩
  have span := @spanDigits_append_of_decimal ds [] row.2 nofun
  rw [List.append_nil] at span
  have marks : (mark == 'e' || mark == 'E') = true := by rcases marks with rfl | rfl <;> rfl
  obtain ⟨n, values, digits⟩ := List.exists_cons_of_ne_nil row.filterMap_ne_nil
  rw [digits] at span
  have unsigned : splitSign ds = (false, ds) := by
    unfold splitSign
    split
    · exact absurd (row.2 '-' (.head _)) (by decide)
    · exact absurd (row.2 '+' (.head _)) (by decide)
    · rfl
  rcases signs with rfl | rfl | rfl
  · exact ⟨digitsValue (n :: values), by simp [Haulage.readExponent?, marks, unsigned, span]⟩
  · exact ⟨digitsValue (n :: values), by simp [Haulage.readExponent?, marks, splitSign, span]⟩
  · exact ⟨-digitsValue (n :: values), by simp [Haulage.readExponent?, marks, splitSign, span]⟩

theorem IsUnsigned.readDecimal? {s : Text} (h : IsUnsigned s) :
    ∃ d, Haulage.readDecimal? s = some d := by
  obtain ⟨whole, part, power, rfl, row, fraction, exponent⟩ := h
  obtain ⟨e, read⟩ := exponent.readExponent?
  have stop := exponent.stop
  rcases fraction with rfl | ⟨ds, rfl, row'⟩
  · exact ⟨_, readDecimal?_whole row.2 row.1 read stop⟩
  · exact ⟨_, readDecimal?_pointed row.2 row.1 read row'.2
      fun c hc => ⟨(stop c hc).1, (stop c hc).2.1⟩⟩

/-- The characters of a number without a sign. -/
theorem IsUnsigned.mem {s : Text} (h : IsUnsigned s) :
    ∀ c ∈ s, isDecimalDigit c = true ∨ c ∈ ['.', 'e', 'E', '+', '-'] := by
  obtain ⟨whole, part, power, rfl, row, fraction, exponent⟩ := h
  intro c hc
  rcases List.mem_append.mp hc with hc | hc
  · exact .inl (row.2 c hc)
  rcases List.mem_append.mp hc with hc | hc
  · rcases fraction with rfl | ⟨ds, rfl, row'⟩
    · cases hc
    · rcases List.mem_cons.mp hc with rfl | hc
      · exact .inr (by decide)
      · exact .inl (row'.2 c hc)
  · rcases exponent with rfl | ⟨mark, sign, ds, rfl, marks, signs, row'⟩
    · cases hc
    rcases List.mem_cons.mp hc with rfl | hc
    · rcases marks with rfl | rfl <;> exact .inr (by decide)
    rcases List.mem_append.mp hc with hc | hc
    · have all : ∀ d ∈ sign, d ∈ ['.', 'e', 'E', '+', '-'] := by
        rcases signs with rfl | rfl | rfl <;> decide
      exact .inr (all c hc)
    · exact .inl (row'.2 c hc)

theorem IsUnsigned.isBlank_eq_false {s : Text} (h : IsUnsigned s) : ∀ c ∈ s, isBlank c = false := by
  intro c hc
  rcases h.mem c hc with digit | mark
  · exact Lexer.isBlank_of_isNameChar
      (isNameChar_of_isDigitLike (isDigitLike_of_isDecimalDigit digit))
  · have marks : ∀ d ∈ ['.', 'e', 'E', '+', '-'], isBlank d = false := by decide
    exact marks c mark

theorem IsUnsigned.exists_cons {s : Text} (h : IsUnsigned s) :
    ∃ c cs, s = c :: cs ∧ isDecimalDigit c = true := by
  obtain ⟨whole, part, power, rfl, row, -⟩ := h
  obtain ⟨c, cs, rfl⟩ := List.exists_cons_of_ne_nil row.1
  exact ⟨c, cs ++ (part ++ power), rfl, row.2 c (.head _)⟩

theorem toLower_of_isDecimalDigit {c : Char} (h : isDecimalDigit c = true) : c.toLower = c := by
  have alpha := isAlpha_of_isDigitLike (isDigitLike_of_isDecimalDigit h)
  unfold Char.toLower
  rw [dif_neg]
  intro upper
  have isUpper : c.isUpper = true := by
    simp only [Char.isUpper, decide_eq_true_eq]
    exact upper
  simp [Char.isAlpha, isUpper] at alpha

theorem IsUnsigned.isWord_eq_false {s : Text} (h : IsUnsigned s) (word : String) {w : Char}
    {ws : Text} (whole : word.toList = w :: ws) (letter : isDecimalDigit w = false) :
    isWord word s = false := by
  obtain ⟨c, cs, rfl, digit⟩ := h.exists_cons
  rw [isWord, whole, List.map_cons, toLower_of_isDecimalDigit digit, beq_eq_false_iff_ne]
  intro same
  rw [(List.cons.inj same).1, letter] at digit
  cases digit

theorem trimNumber_eq_self {s : Text} (written : ∀ c ∈ s, surroundsNumber c = false) :
    trimNumber s = s :=
  trim_eq_self written

/-- The number is read with and without a minus in front. -/
theorem IsUnsigned.readFloat?_of_readDecimal? {s : Text} (h : IsUnsigned s) {d : Scientific}
    (read : Haulage.readDecimal? s = some d) :
    Haulage.readFloat? s = some d.toFloat ∧ Haulage.readFloat? ('-' :: s) = some (-d.toFloat) := by
  have written : ∀ c ∈ s, surroundsNumber c = false := fun c hc => by
    simp [surroundsNumber, h.isBlank_eq_false c hc]
  have written' : ∀ c ∈ '-' :: s, surroundsNumber c = false :=
    List.forall_mem_cons.mpr ⟨by decide, written⟩
  have unsigned : readUnsigned? s = some d.toFloat := by
    have inf := h.isWord_eq_false "inf" rfl (by decide)
    have infinity := h.isWord_eq_false "infinity" rfl (by decide)
    have nan := h.isWord_eq_false "nan" rfl (by decide)
    simp [readUnsigned?, inf, infinity, nan, read]
  have sign : splitSign s = (false, s) := by
    obtain ⟨c, cs, rfl, digit⟩ := h.exists_cons
    unfold splitSign
    split
    · rename_i minus
      exact absurd ((List.cons.inj minus).1 ▸ digit) (by decide)
    · rename_i plus
      exact absurd ((List.cons.inj plus).1 ▸ digit) (by decide)
    · rfl
  constructor
  · simp [Haulage.readFloat?, trimNumber_eq_self written, sign, unsigned]
  · simp [Haulage.readFloat?, trimNumber_eq_self written', splitSign, unsigned]

theorem IsUnsigned.exists_readFloat? {s : Text} (h : IsUnsigned s) :
    ∃ x : Float, x.isNaN = false ∧ Haulage.readFloat? s = some x ∧
      Haulage.readFloat? ('-' :: s) = some (-x) := by
  obtain ⟨d, read⟩ := h.readDecimal?
  exact ⟨d.toFloat, isNaN_toFloat d, h.readFloat?_of_readDecimal? read⟩

/-- **A number of a choice is a number of the language.** -/
theorem IsUnsigned.spells {s : Text} {x : Float} (h : IsUnsigned s)
    (read : Haulage.readFloat? s = some x) : Spells s (.number x) [] := by
  obtain ⟨c, cs, cons, digit⟩ := h.exists_cons
  obtain ⟨whole, part, power, rfl, row, fraction, exponent⟩ := h
  have like {ds : Text} (row : IsRow ds) : ∀ d ∈ ds, isDigitLike d = true :=
    fun d hd => isDigitLike_of_isDecimalDigit (row.2 d hd)
  have number {ds : Text} (row : IsRow ds) : ∀ d ∈ ds, Lexer.isNumberChar d = true :=
    fun d hd => by simp [Lexer.isNumberChar, like row d hd]
  have span : Lexer.spanNumber (whole ++ (part ++ power)) = (whole ++ (part ++ power), []) := by
    refine Lexer.spanNumber_eq_iff.mpr ⟨whole ++ part, power, ?_, ?_, ?_, ?_, ?_⟩
    · rw [List.append_assoc]
    · rw [List.append_nil, List.append_assoc]
    · refine List.forall_mem_append.mpr ⟨number row, ?_⟩
      rcases fraction with rfl | ⟨ds, rfl, row'⟩
      · exact List.forall_mem_nil _
      · exact List.forall_mem_cons.mpr ⟨rfl, number row'⟩
    · rw [List.append_nil]
      rcases exponent with rfl | ⟨mark, sign, ds, rfl, rfl | rfl, -⟩ <;> rfl
    · rw [List.append_nil]
      rcases exponent with rfl | ⟨mark, sign, ds, rfl, marks, signs, row'⟩
      · rfl
      · have isExponent : Lexer.IsExponent (mark :: (sign ++ ds)) :=
          ⟨mark, sign, ds, rfl, marks, signs, row'.1, like row'⟩
        simpa using Lexer.exponentLength_append (r := []) isExponent rfl
  rw [cons] at read span ⊢
  exact .number (by simp [Lexer.startsNumber, isDigitLike_of_isDecimalDigit digit])
    (by simpa using span) read

/-! ## 2. The text of a choice -/

/-- A number as choices hold it, with a sign or without, a negative one perhaps in parentheses. -/
inductive IsLiteral : Text → Prop
  | plain {s : Text} (unsigned : IsUnsigned s) : IsLiteral s
  | minus {s : Text} (unsigned : IsUnsigned s) : IsLiteral ('-' :: s)
  | paren {s : Text} (unsigned : IsUnsigned s) : IsLiteral ('(' :: '-' :: (s ++ [')']))

/-- The forms of the numbers in choices. -/
inductive LiteralForm : Form → Prop
  | plain (x : Float) : LiteralForm (.number x)
  | minus (x : Float) : LiteralForm (.signed .minus (.number x))
  | paren (x : Float) : LiteralForm (.paren (.signed .minus (.number x)))

/-- The form of a number in a choice, and the float that it stands for. -/
structure Denotes (s : Text) (f : Form) (x : Float) : Prop where
  form : LiteralForm f
  lexes : Lexes s f.lexemes
  /-- The choice reads the number in the same way, without its parentheses. -/
  read : readFloat? (s.filter fun c => c != '(' && c != ')') = some x
  number : x.isNaN = false
  value : ∀ bindings, f.expr.eval bindings = .ok (.float x)
  /-- Its parentheses are those of the form, -/
  enclosed : s.head? = some '(' → ∃ g, f = .paren g
  /-- which is a primary unless it starts with the minus. -/
  primary : s.head? ≠ some '-' → 6 ≤ f.rank

theorem IsUnsigned.filter_eq_self {s : Text} (h : IsUnsigned s) :
    s.filter (fun c => c != '(' && c != ')') = s := by
  refine List.filter_eq_self.mpr fun c hc => ?_
  rcases h.mem c hc with digit | mark
  · have paren : ∀ d ∈ ['(', ')'], isDecimalDigit d = false := by decide
    have other {d : Char} (mem : d ∈ ['(', ')']) : c ≠ d := by
      rintro rfl
      rw [paren c mem] at digit
      cases digit
    simp [other]
  · have marks : ∀ d ∈ ['.', 'e', 'E', '+', '-'], (d != '(' && d != ')') = true := by decide
    exact marks c mark

/-- **A number in a choice is a form of the language**, and both read it as the same number. -/
theorem IsLiteral.exists_denotes {s : Text} (h : IsLiteral s) : ∃ f x, Denotes s f x := by
  cases h with
  | plain unsigned =>
    obtain ⟨x, number, read, -⟩ := unsigned.exists_readFloat?
    refine ⟨_, x, .plain x, (unsigned.spells read).lexes, ?_, number, fun _ => rfl, ?_,
      fun _ => Nat.le_refl 6⟩
    · rw [unsigned.filter_eq_self, read]
    · intro paren
      obtain ⟨c, cs, rfl, digit⟩ := unsigned.exists_cons
      obtain rfl := Option.some.inj paren
      exact absurd digit (by decide)
  | minus unsigned =>
    obtain ⟨x, number, read, negated⟩ := unsigned.exists_readFloat?
    refine ⟨_, -x, .minus x, ?_, ?_, by rwa [isNaN_neg], fun _ => rfl, nofun,
      fun other => absurd rfl other⟩
    · exact (Lexer.lexes_symbol (c := '-') rfl).append (unsigned.spells read).lexes
        (Form.phrase (.signed .minus (.number x))).apart
    · rw [List.filter_cons_of_pos rfl, unsigned.filter_eq_self, negated]
  | paren unsigned =>
    obtain ⟨x, number, read, negated⟩ := unsigned.exists_readFloat?
    refine ⟨_, -x, .paren x, ?_, ?_, by rwa [isNaN_neg], fun _ => rfl, fun _ => ⟨_, rfl⟩,
      fun _ => Nat.le_refl 6⟩
    · have parts : List.Forall₂ Lexes [['('], ['-'], _, [')']]
          [[.symbol .openParen], [.symbol (.operator .minus)], [.number x],
            [.symbol .closeParen]] :=
        .cons (Lexer.lexes_symbol rfl) (.cons (Lexer.lexes_symbol rfl)
          (.cons (unsigned.spells read).lexes (.cons (Lexer.lexes_symbol rfl) .nil)))
      exact Lexes.flatten parts (Form.phrase (.paren (.signed .minus (.number x)))).apart
    · rw [← negated]
      simp [List.filter_append, unsigned.filter_eq_self]

theorem IsLiteral.exists_form {s : Text} (h : IsLiteral s) :
    ∃ f, LiteralForm f ∧ Lexes s f.lexemes := by
  obtain ⟨f, x, denotes⟩ := h.exists_denotes
  exact ⟨f, denotes.form, denotes.lexes⟩

theorem isLiteral_take {s : Text} {n : Nat} (h : numberLength? s = some n) :
    IsLiteral (s.take n) := by
  unfold numberLength? at h
  split at h
  · rename_i s
    split at h
    · rename_i n' unsigned
      split at h
      · rename_i close
        obtain rfl := Option.some.inj h
        obtain ⟨rest, behind⟩ := List.head?_eq_some_iff.mp (beq_iff_eq.mp close)
        have inside : s.take (n' + 1) = s.take n' ++ [')'] := by
          rw [List.take_add, behind]
          rfl
        rw [List.take_succ_cons, List.take_succ_cons, inside]
        exact .paren (isUnsigned_take unsigned)
      · cases h
    · cases h
  · obtain ⟨n', unsigned, rfl⟩ := Option.map_eq_some_iff.mp h
    exact .minus (isUnsigned_take unsigned)
  · exact .plain (isUnsigned_take h)

theorem IsUnsigned.unquoted {s : Text} (h : IsUnsigned s) : Unquoted s := by
  have digit {c : Char} (is : isDecimalDigit c = true) : c ≠ '"' ∧ c ≠ '\\' :=
    ⟨fun same => absurd (same ▸ is) (by decide), fun same => absurd (same ▸ is) (by decide)⟩
  have marks : ∀ c ∈ ['.', 'e', 'E', '+', '-'], c ≠ '"' ∧ c ≠ '\\' := by decide
  exact fun c hc => (h.mem c hc).elim digit (marks c)

theorem IsLiteral.unquoted {s : Text} (h : IsLiteral s) : Unquoted s := by
  cases h with
  | plain h => exact h.unquoted
  | minus h => exact .cons (by decide) h.unquoted
  | paren h => exact .cons (by decide) (.cons (by decide) (h.unquoted.append (.single (by decide))))

/-- The text of a choice between numbers. -/
structure IsChoice (s : Text) : Prop where
  lexes : ∃ c a b, LiteralForm c ∧ LiteralForm a ∧ LiteralForm b ∧
    Lexes s (Form.paren (.choice c a b)).lexemes
  unquoted : Unquoted s

theorem unquoted_of_blanks {bs : Text} (blanks : ∀ b ∈ bs, isBlank b = true) : Unquoted bs :=
  fun b hb => ⟨fun same => absurd (same ▸ blanks b hb) (by decide),
    fun same => absurd (same ▸ blanks b hb) (by decide)⟩

theorem exists_blanks (s : Text) :
    ∃ bs, s = bs ++ s.dropWhile isBlank ∧ ∀ b ∈ bs, isBlank b = true :=
  ⟨s.takeWhile isBlank, List.takeWhile_append_dropWhile.symm,
    fun b hb => List.all_eq_true.mp List.all_takeWhile b hb⟩

theorem exists_of_takeNumber? {s number rest : Text} (h : takeNumber? s = some (number, rest)) :
    ∃ bs, s = bs ++ (number ++ rest) ∧ (∀ b ∈ bs, isBlank b = true) ∧ IsLiteral number := by
  obtain ⟨bs, whole, blanks⟩ := exists_blanks s
  obtain ⟨n, length, same⟩ := Option.map_eq_some_iff.mp h
  obtain ⟨rfl, rfl⟩ := Prod.mk.inj same
  exact ⟨bs, by rw [List.take_append_drop]; exact whole, blanks, isLiteral_take length⟩

theorem exists_of_dropSymbol? {symbol : Char} {s rest : Text}
    (h : dropSymbol? symbol s = some rest) :
    ∃ bs, s = bs ++ symbol :: rest ∧ ∀ b ∈ bs, isBlank b = true := by
  obtain ⟨bs, whole, blanks⟩ := exists_blanks s
  unfold dropSymbol? at h
  split at h
  · cases h
  · rename_i c cs shape
    split at h
    · rename_i is
      obtain rfl := Option.some.inj h
      exact ⟨bs, by rw [← beq_iff_eq.mp is, ← shape]; exact whole, blanks⟩
    · cases h

/-- What stands behind the parenthesis of a choice: a condition and two alternatives, with blanks
wherever there may be some, and the other parenthesis. -/
inductive ChoiceBetween (condition whenPositive otherwise : Text) : Text → Prop
  | intro {b₁ b₂ b₃ b₄ b₅ b₆ : Text}
      (blanks : ∀ bs ∈ [b₁, b₂, b₃, b₄, b₅, b₆], ∀ b ∈ bs, isBlank b = true)
      (literals : ∀ s ∈ [condition, whenPositive, otherwise], IsLiteral s) :
      ChoiceBetween condition whenPositive otherwise
        (b₁ ++ (condition ++ (b₂ ++ '?' :: (b₃ ++ (whenPositive ++
          (b₄ ++ ':' :: (b₅ ++ (otherwise ++ (b₆ ++ [')'])))))))))

/-- **What a choice is made of**, and which of its numbers takes its place. -/
theorem exists_choiceBetween {s chosen rest : Text} (h : choose? s = some (chosen, rest)) :
    ∃ inner condition behind a b, s = inner ++ rest ∧ takeNumber? s = some (condition, behind) ∧
      ChoiceBetween condition a b inner ∧ chosen = if isPositive condition then a else b := by
  simp only [choose?, Option.bind_eq_bind, Option.bind_eq_some_iff, Option.some.injEq,
    Prod.mk.injEq, Prod.exists] at h
  obtain ⟨c, behind, hc, _, hq, a, _, ha, _, hl, b, _, hb, _, hp, rfl, rfl⟩ := h
  have taken := hc
  obtain ⟨bs₁, rfl, blanks₁, literalC⟩ := exists_of_takeNumber? hc
  obtain ⟨bs₂, rfl, blanks₂⟩ := exists_of_dropSymbol? hq
  obtain ⟨bs₃, rfl, blanks₃, literalA⟩ := exists_of_takeNumber? ha
  obtain ⟨bs₄, rfl, blanks₄⟩ := exists_of_dropSymbol? hl
  obtain ⟨bs₅, rfl, blanks₅, literalB⟩ := exists_of_takeNumber? hb
  obtain ⟨bs₆, rfl, blanks₆⟩ := exists_of_dropSymbol? hp
  refine ⟨_, c, _, a, b, ?_, taken,
    .intro (by simpa using ⟨blanks₁, blanks₂, blanks₃, blanks₄, blanks₅, blanks₆⟩)
      (by simpa using ⟨literalC, literalA, literalB⟩), rfl⟩
  simp

/-- A choice, behind its parenthesis: the condition and the two alternatives. -/
structure ChoiceParts (inner condition whenPositive otherwise : Text) : Prop where
  literals : ∀ s ∈ [condition, whenPositive, otherwise], IsLiteral s
  lexes : ∀ {c a b : Form}, Lexes condition c.lexemes → Lexes whenPositive a.lexemes →
    Lexes otherwise b.lexemes → Lexes ('(' :: inner) (Form.paren (.choice c a b)).lexemes
  unquoted : Unquoted ('(' :: inner)

theorem ChoiceBetween.parts {inner condition a b : Text} (h : ChoiceBetween condition a b inner) :
    ChoiceParts inner condition a b := by
  obtain ⟨blanks, literals⟩ := h
  simp only [List.forall_mem_cons] at blanks
  obtain ⟨blanks₁, blanks₂, blanks₃, blanks₄, blanks₅, blanks₆, -⟩ := blanks
  have literalC := literals condition (by simp)
  have literalA := literals a (by simp)
  have literalB := literals b (by simp)
  refine ⟨literals, ?_, ?_⟩
  · intro fc fa fb lexesC lexesA lexesB
    have parts : List.Forall₂ Lexes
        [['('], _ ++ condition, _ ++ ['?'], _ ++ a, _ ++ [':'], _ ++ b, _ ++ [')']]
        [[.symbol .openParen], fc.lexemes, [.symbol .question], fa.lexemes, [.symbol .colon],
          fb.lexemes, [.symbol .closeParen]] :=
      .cons (Lexer.lexes_symbol rfl) <| .cons (lexesC.blanks_append blanks₁) <|
      .cons ((Lexer.lexes_symbol rfl).blanks_append blanks₂) <|
      .cons (lexesA.blanks_append blanks₃) <|
      .cons ((Lexer.lexes_symbol rfl).blanks_append blanks₄) <|
      .cons (lexesB.blanks_append blanks₅) <|
      .cons ((Lexer.lexes_symbol rfl).blanks_append blanks₆) .nil
    have whole := (Form.phrase (.paren (.choice fc fa fb))).apart
    simpa [Form.lexemes] using Lexes.flatten parts (by simpa [Form.lexemes] using whole)
  · exact .cons (by decide) <| .append (unquoted_of_blanks blanks₁) <| .append literalC.unquoted <|
      .append (unquoted_of_blanks blanks₂) <| .cons (by decide) <|
      .append (unquoted_of_blanks blanks₃) <| .append literalA.unquoted <|
      .append (unquoted_of_blanks blanks₄) <| .cons (by decide) <|
      .append (unquoted_of_blanks blanks₅) <| .append literalB.unquoted <|
      .append (unquoted_of_blanks blanks₆) (.single (by decide))

/-- **The parts of a choice**, and which of its numbers takes its place. -/
theorem exists_parts_of_choose? {s chosen rest : Text} (h : choose? s = some (chosen, rest)) :
    ∃ inner condition behind a b, s = inner ++ rest ∧ takeNumber? s = some (condition, behind) ∧
      ChoiceParts inner condition a b ∧ chosen = if isPositive condition then a else b := by
  obtain ⟨inner, condition, behind, a, b, whole, taken, between, chosen⟩ := exists_choiceBetween h
  exact ⟨inner, condition, behind, a, b, whole, taken, between.parts, chosen⟩

theorem ChoiceParts.isChoice {inner condition a b : Text} (h : ChoiceParts inner condition a b) :
    IsChoice ('(' :: inner) := by
  obtain ⟨fc, formC, lexesC⟩ := (h.literals condition (by simp)).exists_form
  obtain ⟨fa, formA, lexesA⟩ := (h.literals a (by simp)).exists_form
  obtain ⟨fb, formB, lexesB⟩ := (h.literals b (by simp)).exists_form
  exact ⟨⟨fc, fa, fb, formC, formA, formB, h.lexes lexesC lexesA lexesB⟩, h.unquoted⟩

/-- A choice ends in its text, and what takes its place is one of its numbers. -/
theorem exists_of_choose? {s chosen rest : Text} (h : choose? s = some (chosen, rest)) :
    ∃ inner, s = inner ++ rest ∧ IsChoice ('(' :: inner) ∧ IsLiteral chosen := by
  obtain ⟨inner, condition, behind, a, b, whole, -, parts, rfl⟩ := exists_parts_of_choose? h
  refine ⟨inner, whole, parts.isChoice, ?_⟩
  split
  · exact parts.literals a (by simp)
  · exact parts.literals b (by simp)

end NumericChoice

end Haulage
