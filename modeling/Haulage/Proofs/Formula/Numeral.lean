/-
# How numbers are written

A `Numeral` is an unsigned decimal as it is written in digits of ASCII: digits, perhaps a point and
more digits, and perhaps an exponent.  Whatever is written so is one lexeme of a formula, and what it
is read as is the float nearest to its `value`.
-/
import Haulage.Proofs.Formula.Lexing

namespace Haulage

/-! ## 1. Rows of digits -/

/-- Only digits of ASCII. -/
def Digits (s : Text) : Prop := ∀ c ∈ s, c.isDigit = true

instance (s : Text) : Decidable (Digits s) := inferInstanceAs (Decidable (∀ c ∈ s, _))

/-- The number that a row of digits stands for. -/
def rowValue (s : Text) : Nat := digitsValue (s.map fun c => c.toNat - 48)

theorem decimalDigit?_of_isDigit {c : Char} (h : c.isDigit = true) :
    decimalDigit? c = some (c.toNat - 48) := by
  have bounds : 48 ≤ c.toNat ∧ c.toNat ≤ 57 := by
    simp only [Char.isDigit, Bool.and_eq_true, decide_eq_true_eq, ge_iff_le,
      UInt32.le_iff_toNat_le] at h
    exact h
  rw [decimalDigit?, if_pos (by omega), if_pos h]

theorem isDigitLike_of_isDigit {c : Char} (h : c.isDigit = true) : isDigitLike c = true :=
  isDigitLike_of_isDecimalDigit (by simp [isDecimalDigit, decimalDigit?_of_isDigit h])

namespace Digits

variable {x y : Text}

theorem append (hx : Digits x) (hy : Digits y) : Digits (x ++ y) :=
  fun c hc => (List.mem_append.mp hc).elim (hx c) (hy c)

theorem replicate (n : Nat) : Digits (List.replicate n '0') := fun c hc => by
  obtain rfl := List.eq_of_mem_replicate hc
  decide

theorem digitsOf (n : Nat) : Digits (digitsOf n) :=
  fun _ hc => Nat.isDigit_of_mem_toDigits (by decide) (by decide) hc

end Digits

theorem digitsOf_ne_nil (n : Nat) : digitsOf n ≠ [] := Nat.toDigits_ne_nil

theorem rowValue_eq (s : Text) : rowValue s = Nat.ofDigitChars 10 s 0 := by
  rw [rowValue, digitsValue, List.foldl_map]
  rfl

/-- **What is written in digits is read back.** -/
theorem rowValue_digitsOf (n : Nat) : rowValue (digitsOf n) = n := by
  rw [rowValue_eq]
  exact Nat.ofDigitChars_ten_toDigits

theorem rowValue_append (x y : Text) :
    rowValue (x ++ y) = 10 ^ y.length * rowValue x + rowValue y := by
  rw [rowValue_eq, Nat.ofDigitChars_append, Nat.ofDigitChars_eq_ofDigitChars_zero, ← rowValue_eq,
    ← rowValue_eq]

theorem rowValue_replicate (n : Nat) : rowValue (List.replicate n '0') = 0 := by
  rw [rowValue_eq, Nat.ofDigitChars_replicate_zero, Nat.mul_zero]

/-- A row of decimal digits of any script is read to its end. -/
theorem spanDigits_append_of_decimal {ds rest : Text} (decimal : ∀ c ∈ ds, isDecimalDigit c = true)
    (stop : ∀ c ∈ rest.head?, isDecimalDigit c = false ∧ c ≠ '_') :
    spanDigits (ds ++ rest) = (ds.filterMap decimalDigit?, rest) := by
  induction ds with
  | nil =>
    cases rest with
    | nil => rfl
    | cons c rest =>
      have none : decimalDigit? c = none := by simpa [isDecimalDigit] using (stop c rfl).1
      simp [spanDigits, none]
  | cons d ds ih =>
    have ih := ih fun c hc => decimal c (by simp [hc])
    obtain ⟨n, digit⟩ := Option.isSome_iff_exists.mp (decimal d (by simp))
    rw [List.cons_append, spanDigits, digit, List.filterMap_cons_some digit]
    dsimp only
    split
    · rename_i c' s' whole
      cases ds with
      | nil => exact absurd rfl (stop '_' (by simp [show rest = _ from whole])).2
      | cons d' ds =>
        obtain rfl : d' = '_' := (List.cons.inj whole).1
        exact absurd (decimal '_' (by simp)) (by decide)
    · rw [ih]

namespace Digits

variable {ds : Text} (digits : Digits ds)

include digits

theorem isDecimalDigit : ∀ c ∈ ds, isDecimalDigit c = true := fun c hc => by
  simp [Haulage.isDecimalDigit, decimalDigit?_of_isDigit (digits c hc)]

theorem filterMap_decimalDigit? : ds.filterMap decimalDigit? = ds.map fun c => c.toNat - 48 := by
  rw [← List.filterMap_eq_map, List.filterMap_congr fun c hc => decimalDigit?_of_isDigit (digits c hc)]
  rfl

end Digits

/-- A row of digits is read to its end. -/
theorem spanDigits_append {ds rest : Text} (digits : Digits ds)
    (stop : ∀ c ∈ rest.head?, isDecimalDigit c = false ∧ c ≠ '_') :
    spanDigits (ds ++ rest) = (ds.map fun c => c.toNat - 48, rest) := by
  rw [spanDigits_append_of_decimal digits.isDecimalDigit stop, digits.filterMap_decimalDigit?]

/-! ## 2. Decimals -/

theorem filterMap_decimalDigit?_ne_nil {ds : Text} (row : ∀ c ∈ ds, isDecimalDigit c = true)
    (nonempty : ds ≠ []) : ds.filterMap decimalDigit? ≠ [] := by
  obtain ⟨c, cs, rfl⟩ := List.exists_cons_of_ne_nil nonempty
  obtain ⟨n, digit⟩ := Option.isSome_iff_exists.mp (row c (.head _))
  rw [List.filterMap_cons_some digit]
  exact List.cons_ne_nil _ _

section

variable {whole part power : Text} {e : Int} (row : ∀ c ∈ whole, isDecimalDigit c = true)
  (nonempty : whole ≠ []) (read : readExponent? power = some e)

include row nonempty read

/-- Digits without a point are read with the exponent behind them. -/
theorem readDecimal?_whole
    (stop : ∀ c ∈ power.head?, isDecimalDigit c = false ∧ c ≠ '_' ∧ c ≠ '.') :
    readDecimal? (whole ++ power) = some ⟨digitsValue (whole.filterMap decimalDigit?), e⟩ := by
  have some := filterMap_decimalDigit?_ne_nil row nonempty
  unfold readDecimal?
  rw [spanDigits_append_of_decimal row fun c hc => ⟨(stop c hc).1, (stop c hc).2.1⟩]
  split
  · rename_i point
    obtain ⟨-, rfl⟩ := Prod.mk.inj point
    exact absurd rfl (stop '.' rfl).2.2
  · rename_i none
    exact absurd (Prod.mk.inj none).1 some
  · rename_i split
    obtain ⟨rfl, rfl⟩ := Prod.mk.inj split
    rw [read]
    rfl

/-- Digits behind a point count for the exponent. -/
theorem readDecimal?_pointed (row' : ∀ c ∈ part, isDecimalDigit c = true)
    (stop : ∀ c ∈ power.head?, isDecimalDigit c = false ∧ c ≠ '_') :
    readDecimal? (whole ++ '.' :: (part ++ power)) =
      some ⟨digitsValue (whole.filterMap decimalDigit? ++ part.filterMap decimalDigit?),
        e - (part.filterMap decimalDigit?).length⟩ := by
  have some := filterMap_decimalDigit?_ne_nil row nonempty
  have point : ∀ c ∈ ('.' :: (part ++ power)).head?, isDecimalDigit c = false ∧ c ≠ '_' := by
    intro c hc
    obtain rfl : '.' = c := by simpa using hc
    decide
  unfold readDecimal?
  rw [spanDigits_append_of_decimal row point]
  simp [spanDigits_append_of_decimal row' stop, read, some]

end

/-! ## 3. Numerals -/

/-- An unsigned decimal as it is written. -/
structure Numeral where
  /-- The digits in front of the point. -/
  whole : Text
  /-- The digits behind the point, if there is one. -/
  part : Option Text
  /-- The exponent, if there is one: is it negative, and its digits. -/
  exponent : Option (Bool × Text)
  whole_ne_nil : whole ≠ []
  digits_whole : Digits whole
  digits_part : ∀ p ∈ part, Digits p
  digits_exponent : ∀ e ∈ exponent, e.2 ≠ [] ∧ Digits e.2

namespace Numeral

variable (n : Numeral)

/-- The point and the digits behind it. -/
def partText : Text := n.part.elim [] ('.' :: ·)

/-- The mark, the sign and the digits of the exponent. -/
def exponentText : Text :=
  n.exponent.elim [] fun e => 'e' :: (if e.1 then '-' else '+') :: e.2

/-- The text of the numeral. -/
def text : Text := n.whole ++ (n.partText ++ n.exponentText)

/-- The exponent as a number. -/
def power : Int := n.exponent.elim 0 fun e => if e.1 then -(rowValue e.2 : Int) else rowValue e.2

/-- The decimal that is written. -/
def value : Scientific :=
  ⟨rowValue (n.whole ++ n.part.getD []), n.power - (n.part.getD []).length⟩

/-- A numeral is made of digits, the point, the mark of the exponent and its sign. -/
theorem mem_text {c : Char} (h : c ∈ n.text) : c.isDigit = true ∨ c ∈ ".e+-".toList := by
  unfold text partText exponentText at h
  rcases List.mem_append.mp h with whole | h
  · exact .inl (n.digits_whole c whole)
  rcases List.mem_append.mp h with part | exponent
  · match parts : n.part with
    | none => simp [parts] at part
    | some p =>
      rw [parts] at part
      rcases List.mem_cons.mp part with rfl | mem
      · exact .inr (by decide)
      · exact .inl (n.digits_part p parts c mem)
  · match parts : n.exponent with
    | none => simp [parts] at exponent
    | some (negative, ds) =>
      rw [parts] at exponent
      rcases List.mem_cons.mp exponent with rfl | mem
      · exact .inr (by decide)
      rcases List.mem_cons.mp mem with rfl | mem
      · cases negative
        · exact .inr (show '+' ∈ ".e+-".toList by decide)
        · exact .inr (show '-' ∈ ".e+-".toList by decide)
      · exact .inl ((n.digits_exponent _ parts).2 c mem)

theorem readExponent?_exponentText : readExponent? n.exponentText = some n.power := by
  unfold exponentText power
  match exponent : n.exponent with
  | none => rfl
  | some (negative, ds) =>
    obtain ⟨nonempty, all⟩ := n.digits_exponent (negative, ds) exponent
    have span := @spanDigits_append ds [] all nofun
    rw [List.append_nil] at span
    obtain ⟨d, ds, rfl⟩ := List.exists_cons_of_ne_nil nonempty
    cases negative <;> simp [readExponent?, splitSign, span, rowValue]

theorem stop_exponentText :
    ∀ c ∈ n.exponentText.head?, isDecimalDigit c = false ∧ c ≠ '_' ∧ c ≠ '.' := by
  unfold exponentText
  match n.exponent with
  | none => nofun
  | some _ =>
    intro c hc
    obtain rfl : 'e' = c := by simpa using hc
    decide

theorem readDecimal?_text : readDecimal? n.text = some n.value := by
  have stop := n.stop_exponentText
  have read := n.readExponent?_exponentText
  have row := n.digits_whole.isDecimalDigit
  unfold text partText value
  match part : n.part with
  | none =>
    have whole := readDecimal?_whole row n.whole_ne_nil read stop
    simpa [n.digits_whole.filterMap_decimalDigit?, rowValue] using whole
  | some p =>
    have digits := n.digits_part p part
    have pointed := readDecimal?_pointed row n.whole_ne_nil read digits.isDecimalDigit
      fun c hc => ⟨(stop c hc).1, (stop c hc).2.1⟩
    simpa [n.digits_whole.filterMap_decimalDigit?, digits.filterMap_decimalDigit?, rowValue]
      using pointed

theorem exists_text_eq_cons : ∃ d cs, n.text = d :: cs ∧ d.isDigit = true := by
  obtain ⟨d, ds, whole⟩ := List.exists_cons_of_ne_nil n.whole_ne_nil
  exact ⟨d, ds ++ (n.partText ++ n.exponentText), by rw [text, whole]; rfl,
    n.digits_whole d (by simp [whole])⟩

/-- The text ends in a digit or in the point. -/
theorem getLast?_text : ∀ c ∈ n.text.getLast?, c.isDigit = true ∨ c = '.' := by
  have last {s : Text} (digits : Digits s) : ∀ c ∈ s.getLast?, c.isDigit = true ∨ c = '.' :=
    fun c hc => .inl (digits c (List.mem_of_getLast? hc))
  intro c
  unfold text partText exponentText
  match exponent : n.exponent, part : n.part with
  | some e, _ =>
    obtain ⟨nonempty, digits⟩ := n.digits_exponent e exponent
    have split : 'e' :: (if e.1 then '-' else '+') :: e.2 = ['e', if e.1 then '-' else '+'] ++ e.2 :=
      rfl
    rw [Option.elim_some, split, ← List.append_assoc, ← List.append_assoc,
      List.getLast?_append_of_ne_nil _ nonempty]
    exact last digits c
  | none, none => simpa using last n.digits_whole c
  | none, some p =>
    by_cases empty : p = []
    · subst empty
      intro hc
      exact .inr (by simpa using hc.symm)
    · have split : '.' :: p = ['.'] ++ p := rfl
      rw [Option.elim_some, Option.elim_none, List.append_nil, split, ← List.append_assoc,
        List.getLast?_append_of_ne_nil _ empty]
      exact last (n.digits_part p part) c

theorem trimNumber_text : trimNumber n.text = n.text := by
  obtain ⟨d, cs, whole, digit⟩ := n.exists_text_eq_cons
  have blank {c : Char} (h : c.isDigit = true ∨ c = '.') : surroundsNumber c = false := by
    rcases h with digit | rfl
    · have := Lexer.isBlank_of_isNameChar (isNameChar_of_isDigitLike (isDigitLike_of_isDigit digit))
      simp [surroundsNumber, this]
    · decide
  have front : n.text.head?.any surroundsNumber = false := by simp [whole, blank (.inl digit)]
  have back : n.text.reverse.head?.any surroundsNumber = false := by
    rw [List.head?_reverse]
    have last := n.getLast?_text
    cases h : n.text.getLast? with
    | none => rfl
    | some c => exact blank (last c h)
  rw [trimNumber, Lexer.dropWhile_eq_self_of_head front, Lexer.dropWhile_eq_self_of_head back,
    List.reverse_reverse]

/-- **A numeral is read as the float nearest to its value.** -/
theorem readFloat?_text : readFloat? n.text = some n.value.toFloat := by
  obtain ⟨d, cs, whole, digit⟩ := n.exists_text_eq_cons
  have sign : splitSign n.text = (false, n.text) := by
    rw [whole]
    unfold splitSign
    split
    · rename_i minus
      exact absurd ((List.cons.inj minus).1 ▸ digit) (by decide)
    · rename_i plus
      exact absurd ((List.cons.inj plus).1 ▸ digit) (by decide)
    · rfl
  have lower : d.toLower = d := by
    unfold Char.toLower
    rw [dif_neg]
    simp only [Char.isDigit, Bool.and_eq_true, decide_eq_true_eq, ge_iff_le,
      UInt32.le_iff_toNat_le] at digit ⊢
    have : '9'.val.toNat < 'A'.val.toNat := by decide
    have := digit.2
    omega
  have word (w : Char) (ws : Text) (letter : w.isDigit = false) :
      (n.text.map Char.toLower == w :: ws) = false := by
    rw [whole, List.map_cons, lower, beq_eq_false_iff_ne]
    rintro same
    obtain rfl := (List.cons.inj same).1
    simp [letter] at digit
  have inf : isWord "inf" n.text = false := word _ _ (by decide)
  have infinity : isWord "infinity" n.text = false := word _ _ (by decide)
  have nan : isWord "nan" n.text = false := word _ _ (by decide)
  simp [readFloat?, n.trimNumber_text, sign, readUnsigned?, inf, infinity, nan, n.readDecimal?_text]

/-- **A numeral is one lexeme.** -/
theorem lexes_text : Lexer.Lexes n.text [.number n.value.toFloat] := by
  have span : Lexer.spanNumber n.text = (n.text, []) := by
    refine Lexer.spanNumber_eq_iff.mpr ⟨n.whole ++ n.partText, n.exponentText, ?_, ?_, ?_, ?_, ?_⟩
    · rw [text, List.append_assoc]
    · rw [text, List.append_nil, List.append_assoc]
    · have number {x : Text} (digits : Digits x) : ∀ c ∈ x, Lexer.isNumberChar c = true :=
        fun c hc => by simp [Lexer.isNumberChar, isDigitLike_of_isDigit (digits c hc)]
      refine List.forall_mem_append.mpr ⟨number n.digits_whole, ?_⟩
      unfold partText
      rcases part : n.part with _ | p
      · exact List.forall_mem_nil _
      · exact List.forall_mem_cons.mpr ⟨rfl, number (n.digits_part p part)⟩
    · unfold exponentText
      cases n.exponent <;> rfl
    · rw [List.append_nil]
      unfold exponentText
      rcases exponent : n.exponent with _ | ⟨negative, ds⟩
      · rfl
      · obtain ⟨nonempty, digits⟩ := n.digits_exponent _ exponent
        have isExponent : Lexer.IsExponent ('e' :: (if negative then '-' else '+') :: ds) :=
          ⟨'e', [if negative then '-' else '+'], ds, rfl, .inl rfl, by cases negative <;> simp,
            nonempty, fun d hd => isDigitLike_of_isDigit (digits d hd)⟩
        simpa using Lexer.exponentLength_append (r := []) isExponent rfl
  obtain ⟨d, cs, whole, digit⟩ := n.exists_text_eq_cons
  have starts : Lexer.startsNumber d (cs ++ []) = true := by
    simp [Lexer.startsNumber, isDigitLike_of_isDigit digit]
  have read := n.readFloat?_text
  rw [whole] at span read ⊢
  rw [← List.append_nil (d :: cs)]
  exact .token (.number starts (by simpa using span) read) .nil

end Numeral

/-- The numeral of a natural. -/
def Numeral.ofNat (n : Nat) : Numeral where
  whole := digitsOf n
  part := none
  exponent := none
  whole_ne_nil := digitsOf_ne_nil n
  digits_whole := .digitsOf n
  digits_part := nofun
  digits_exponent := nofun

theorem Numeral.text_ofNat (n : Nat) : (ofNat n).text = digitsOf n := by
  simp [text, partText, exponentText, ofNat]

theorem Numeral.value_ofNat (n : Nat) : (ofNat n).value = ⟨n, 0⟩ := by
  simp [value, power, ofNat, rowValue_digitsOf]

/-- The digits of a natural are one lexeme. -/
theorem lexes_digitsOf (n : Nat) :
    Lexer.Lexes (digitsOf n) [.number (Scientific.toFloat ⟨n, 0⟩)] := by
  rw [← Numeral.text_ofNat, ← Numeral.value_ofNat]
  exact (Numeral.ofNat n).lexes_text

end Haulage
