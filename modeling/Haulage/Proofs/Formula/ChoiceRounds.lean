/-
# Making choices comes to an end

What begins a choice is told from left to right, and a number is taken as far as it goes.  That finds
every choice there is: a number of a choice is followed by a blank, a question mark, a colon or a
parenthesis, with none of which a number goes on (`ChoiceBetween.choose?_append`).  So a round that
changes nothing has met no choice (`replaceAll_eq_self_iff`).

A choice has a question mark and the number that takes its place has none.  Every round but the last
takes one away at least, and that bounds the rounds (`exists_rounds`).
-/
import Haulage.Proofs.Formula.Choice

namespace Haulage

namespace NumericChoice

/-! ## 1. A number is taken as far as it goes -/

/-- No number goes on with the text. -/
def Stops (s : Text) : Prop := ∀ c ∈ s.head?, isDecimalDigit c = false ∧ c ∉ ['.', 'e', 'E']

theorem isDecimalDigit_of_isBlank {c : Char} (blank : isBlank c = true) :
    isDecimalDigit c = false := by
  by_contra digit
  have name := isNameChar_of_isDigitLike (isDigitLike_of_isDecimalDigit (by simpa using digit))
  rw [Lexer.isBlank_of_isNameChar name] at blank
  cases blank

/-- What stands behind a number in a choice: blanks and one of its signs. -/
theorem stops_blanks_append {bs rest : Text} {c : Char} (blanks : ∀ b ∈ bs, isBlank b = true)
    (sign : c ∈ ['?', ':', ')']) : Stops (bs ++ c :: rest) := by
  cases bs with
  | nil =>
    have signs : ∀ d ∈ ['?', ':', ')'], isDecimalDigit d = false ∧ d ∉ ['.', 'e', 'E'] := by decide
    intro d hd
    obtain rfl := Option.some.inj hd
    exact signs c sign
  | cons b bs =>
    intro d hd
    obtain rfl := Option.some.inj hd
    have blank := blanks b (.head _)
    refine ⟨isDecimalDigit_of_isBlank blank, fun mark => ?_⟩
    have marks : ∀ d ∈ ['.', 'e', 'E'], isBlank d = false := by decide
    rw [marks b mark] at blank
    cases blank

theorem digitCount_append {ds rest : Text} (row : ∀ c ∈ ds, isDecimalDigit c = true)
    (stop : ∀ c ∈ rest.head?, isDecimalDigit c = false) : digitCount (ds ++ rest) = ds.length := by
  have none : rest.takeWhile isDecimalDigit = [] := by
    cases rest with
    | nil => rfl
    | cons c rest => exact List.takeWhile_cons_of_neg (by simp [stop c rfl])
  rw [digitCount, List.takeWhile_append_of_pos row, none, List.append_nil]

theorem IsRow.length_ne_zero {ds : Text} (row : IsRow ds) : ds.length ≠ 0 :=
  (List.length_pos_of_ne_nil row.1).ne'

theorem fractionLength_append {part rest : Text} (fraction : IsFraction part)
    (stop : ∀ c ∈ rest.head?, isDecimalDigit c = false ∧ c ≠ '.') :
    fractionLength (part ++ rest) = part.length := by
  rcases fraction with rfl | ⟨ds, rfl, row⟩
  · unfold fractionLength
    split
    · rename_i point
      exact absurd rfl (stop '.' (by rw [show rest = _ from point]; rfl)).2
    · rfl
  · have count := digitCount_append row.2 fun c hc => (stop c hc).1
    rw [List.cons_append, fractionLength, count, if_neg row.length_ne_zero, List.length_cons]

theorem exponentLength_append {power rest : Text} (h : IsPower power) (stop : Stops rest) :
    exponentLength (power ++ rest) = power.length := by
  rcases h with rfl | ⟨mark, sign, ds, rfl, marks, signs, row⟩
  · cases rest with
    | nil => rfl
    | cons c rest =>
      have mark := (stop c rfl).2
      simp only [List.mem_cons, not_or] at mark
      simp [exponentLength, mark]
  · have marks : (mark == 'e' || mark == 'E') = true := by rcases marks with rfl | rfl <;> rfl
    have count := digitCount_append row.2 fun c hc => (stop c hc).1
    have some := row.length_ne_zero
    rcases signs with rfl | rfl | rfl
    · obtain ⟨d, ds, rfl⟩ := List.exists_cons_of_ne_nil row.1
      have unsigned : ¬(d = '+' ∨ d = '-') := by
        rintro (rfl | rfl)
        · exact absurd (row.2 '+' (.head _)) (by decide)
        · exact absurd (row.2 '-' (.head _)) (by decide)
      simp only [List.nil_append, List.cons_append] at count ⊢
      simp [exponentLength, marks, unsigned, count]
    · simp [exponentLength, marks, count, some]
    · simp [exponentLength, marks, count, some]

theorem IsUnsigned.unsignedLength?_append {s rest : Text} (h : IsUnsigned s) (stop : Stops rest) :
    unsignedLength? (s ++ rest) = some s.length := by
  obtain ⟨whole, part, power, rfl, row, fraction, exponent⟩ := h
  have behindPart : ∀ c ∈ (power ++ rest).head?, isDecimalDigit c = false ∧ c ≠ '.' := by
    intro c hc
    cases power with
    | nil =>
      have := stop c hc
      simp_all
    | cons d power => exact ⟨(exponent.stop c hc).1, (exponent.stop c hc).2.2⟩
  have behindWhole : ∀ c ∈ (part ++ (power ++ rest)).head?, isDecimalDigit c = false := by
    intro c hc
    rcases fraction with rfl | ⟨ds, rfl, -⟩
    · exact (behindPart c hc).1
    · obtain rfl := Option.some.inj hc
      decide
  have count := digitCount_append row.2 behindWhole
  have decimal : (whole ++ (part ++ (power ++ rest))).drop (whole.length + part.length) =
      power ++ rest := by
    rw [← List.append_assoc, ← List.length_append, List.drop_left]
  simp only [unsignedLength?, List.append_assoc, count, row.length_ne_zero, if_false,
    List.drop_left, fractionLength_append fraction behindPart, decimal,
    exponentLength_append exponent stop, List.length_append, Nat.add_assoc]

theorem IsLiteral.numberLength?_append {s rest : Text} (h : IsLiteral s) (stop : Stops rest) :
    numberLength? (s ++ rest) = some s.length := by
  cases h with
  | plain h =>
    obtain ⟨c, cs, rfl, digit⟩ := h.exists_cons
    have length := h.unsignedLength?_append stop
    unfold numberLength?
    split
    · rename_i paren
      obtain ⟨rfl, -⟩ := List.cons.inj paren
      exact absurd digit (by decide)
    · rename_i minus
      obtain ⟨rfl, -⟩ := List.cons.inj minus
      exact absurd digit (by decide)
    · exact length
  | minus h => simp [numberLength?, h.unsignedLength?_append stop]
  | @paren s h =>
    have close : Stops (')' :: rest) := @stops_blanks_append [] rest ')' (List.forall_mem_nil _) (by decide)
    simp [numberLength?, h.unsignedLength?_append close]

theorem IsLiteral.takeNumber?_append {bs s rest : Text} (h : IsLiteral s)
    (blanks : ∀ b ∈ bs, isBlank b = true) (stop : Stops rest) :
    takeNumber? (bs ++ (s ++ rest)) = some (s, rest) := by
  have shown : (bs ++ (s ++ rest)).dropWhile isBlank = s ++ rest := by
    obtain ⟨c, cs, rfl, -⟩ := h.exists_cons
    rw [List.dropWhile_append_of_pos blanks]
    exact List.dropWhile_cons_of_neg (by simp [h.isBlank_head])
  rw [takeNumber?, shown]
  simp [h.numberLength?_append stop]

theorem dropSymbol?_append {bs rest : Text} {c : Char} (blanks : ∀ b ∈ bs, isBlank b = true)
    (written : isBlank c = false) : dropSymbol? c (bs ++ c :: rest) = some rest := by
  rw [dropSymbol?, List.dropWhile_append_of_pos blanks,
    List.dropWhile_cons_of_neg (by simp [written])]
  simp

/-- **Every choice is found where it begins**, whatever follows it. -/
theorem ChoiceBetween.choose?_append {inner condition a b : Text}
    (h : ChoiceBetween condition a b inner) (rest : Text) :
    choose? (inner ++ rest) = some (if isPositive condition then a else b, rest) := by
  obtain ⟨blanks, literals⟩ := h
  simp only [List.forall_mem_cons] at blanks literals
  obtain ⟨blanks₁, blanks₂, blanks₃, blanks₄, blanks₅, blanks₆, -⟩ := blanks
  obtain ⟨literalC, literalA, literalB, -⟩ := literals
  have question (r : Text) : Stops (_ ++ '?' :: r) := stops_blanks_append blanks₂ (by decide)
  have colon (r : Text) : Stops (_ ++ ':' :: r) := stops_blanks_append blanks₄ (by decide)
  have close (r : Text) : Stops (_ ++ ')' :: r) := stops_blanks_append blanks₆ (by decide)
  have behindQuestion (r : Text) : dropSymbol? '?' _ = some r :=
    dropSymbol?_append blanks₂ (by decide)
  have behindColon (r : Text) : dropSymbol? ':' _ = some r := dropSymbol?_append blanks₄ (by decide)
  have behindClose (r : Text) : dropSymbol? ')' _ = some r := dropSymbol?_append blanks₆ (by decide)
  simp only [List.append_assoc, List.cons_append, List.nil_append, choose?, Option.bind_eq_bind,
    literalC.takeNumber?_append blanks₁ (question _), behindQuestion,
    literalA.takeNumber?_append blanks₃ (colon _), behindColon,
    literalB.takeNumber?_append blanks₅ (close _), behindClose, Option.bind_some]

/-! ## 2. What a round leaves -/

/-- A choice begins with a parenthesis and goes on with the text. -/
def GoesOn (s : Text) : Prop :=
  ∃ inner rest condition a b, s = inner ++ rest ∧ ChoiceBetween condition a b inner

/-- Somewhere in the text stands a choice between numbers. -/
def HasChoice (s : Text) : Prop := ∃ before s', s = before ++ '(' :: s' ∧ GoesOn s'

theorem not_hasChoice_nil : ¬ HasChoice [] := by
  rintro ⟨before, s, whole, -⟩
  exact List.append_ne_nil_of_right_ne_nil before (List.cons_ne_nil '(' s) whole.symm

theorem hasChoice_cons_iff {c : Char} {cs : Text} :
    HasChoice (c :: cs) ↔ (c = '(' ∧ GoesOn cs) ∨ HasChoice cs := by
  constructor
  · rintro ⟨before, s, whole, goesOn⟩
    cases before with
    | nil =>
      obtain ⟨rfl, rfl⟩ := List.cons.inj whole
      exact .inl ⟨rfl, goesOn⟩
    | cons d before =>
      obtain ⟨rfl, rfl⟩ := List.cons.inj whole
      exact .inr ⟨before, s, rfl, goesOn⟩
  · rintro (⟨rfl, goesOn⟩ | ⟨before, s, rfl, goesOn⟩)
    · exact ⟨[], cs, rfl, goesOn⟩
    · exact ⟨c :: before, s, rfl, goesOn⟩

/-- A search finds the choices that there are. -/
theorem choices_eq_none_iff {before : Option Char} {c : Char} {cs : Text} :
    choices before c cs = none ↔ ¬ (c = '(' ∧ GoesOn cs) := by
  rw [not_and]
  constructor
  · rintro none rfl ⟨inner, rest, condition, a, b, rfl, between⟩
    simp [choices, between.choose?_append] at none
  · intro none
    cases found : choices before c cs with
    | none => rfl
    | some f =>
      obtain ⟨rfl, chosen, rest, chooses⟩ := exists_choose_of_choices found
      obtain ⟨inner, condition, -, a, b, rfl, -, between, -⟩ := exists_choiceBetween chooses
      exact absurd ⟨inner, rest, condition, a, b, rfl, between⟩ (none rfl)

/-- A number has no question mark. -/
theorem IsLiteral.count_question {s : Text} (h : IsLiteral s) : s.count '?' = 0 := by
  have unsigned {s : Text} (h : IsUnsigned s) : '?' ∉ s := fun mem =>
    (h.mem '?' mem).elim (fun digit => absurd digit (by decide)) (by decide)
  rw [List.count_eq_zero]
  cases h with
  | plain h => exact unsigned h
  | minus h => simp [unsigned h]
  | paren h => simp [unsigned h]

theorem ChoiceBetween.count_question_pos {inner condition a b : Text}
    (h : ChoiceBetween condition a b inner) : 0 < inner.count '?' := by
  obtain ⟨-, -⟩ := h
  exact List.count_pos_iff.mpr (by simp)

/-- **A round takes a question mark away, or there is no choice** and the text stays as it is. -/
theorem made_count_cases (s : Text) :
    HasChoice s ∧ (made s).count '?' < s.count '?' ∨ ¬ HasChoice s ∧ made s = s := by
  match s with
  | [] => exact .inr ⟨not_hasChoice_nil, rfl⟩
  | c :: cs =>
    cases found : choices none c cs with
    | none =>
      rw [made_cons_of_none found, hasChoice_cons_iff,
        or_iff_right (choices_eq_none_iff.mp found)]
      rcases made_count_cases cs with ⟨holds, less⟩ | ⟨holds, same⟩
      · exact .inl ⟨holds, by simpa [List.count_cons] using less⟩
      · exact .inr ⟨holds, by rw [same]⟩
    | some f =>
      obtain ⟨rfl, chosen, after, chooses⟩ := exists_choose_of_choices found
      obtain ⟨inner, condition, -, a, b, rfl, -, between, rfl⟩ := exists_choiceBetween chooses
      refine .inl ⟨⟨[], _, rfl, inner, after, condition, a, b, rfl, between⟩, ?_⟩
      have literal : IsLiteral (if isPositive condition then a else b) := by
        split
        · exact between.parts.literals a (by simp)
        · exact between.parts.literals b (by simp)
      have := literal.count_question
      have := between.count_question_pos
      have : (made after).count '?' ≤ after.count '?' := by
        rcases made_count_cases after with ⟨-, less⟩ | ⟨-, same⟩
        · exact less.le
        · rw [same]
      rw [made_of_choice chooses, List.count_append, List.count_cons, List.count_append]
      omega
termination_by s.length

/-- A round changes nothing exactly if there is no choice. -/
theorem replaceAll_eq_self_iff {s : Text} : choices.replaceAll s = s ↔ ¬ HasChoice s := by
  change made s = s ↔ _
  rcases made_count_cases s with ⟨holds, less⟩ | ⟨holds, same⟩
  · refine iff_of_false (fun same => ?_) (not_not.mpr holds)
    rw [same] at less
    exact Nat.lt_irrefl _ less
  · exact iff_of_true same holds

/-! ## 3. All rounds -/

/-- So many rounds lead from a text to another: each but the last makes the choices that are there,
and the last finds that nothing changes any more. -/
inductive Rounds : Nat → Text → Text → Prop
  | last {s : Text} (stable : choices.replaceAll s = s) : Rounds 1 s s
  | next {n : Nat} {s t : Text} (changed : choices.replaceAll s ≠ s)
      (rest : Rounds n (choices.replaceAll s) t) : Rounds (n + 1) s t

/-- Each round but the last takes a question mark away. -/
theorem exists_rounds (s : Text) : ∃ n ≤ s.count '?', Rounds (n + 1) s (simplifyChoices s) := by
  fun_induction simplifyChoices s with
  | case1 s next stable => exact ⟨0, Nat.zero_le _, .last stable⟩
  | case2 s next changed ih =>
    obtain ⟨n, bound, rounds⟩ := ih
    have less : next.count '?' < s.count '?' := by
      rcases made_count_cases s with ⟨-, less⟩ | ⟨-, same⟩
      · exact less
      · exact absurd same changed
    exact ⟨n + 1, by omega, .next changed rounds⟩

/-- What the choice of a round is made by is always read as a number. -/
theorem ChoiceBetween.exists_condition {inner condition a b : Text}
    (h : ChoiceBetween condition a b inner) :
    ∃ x, readFloat? (condition.filter fun c => c != '(' && c != ')') = some x := by
  obtain ⟨_, x, denotes⟩ := (h.parts.literals condition (by simp)).exists_denotes
  exact ⟨x, denotes.read⟩

end NumericChoice

theorem length_simplifyChoices_le (s : Text) : (simplifyChoices s).length ≤ s.length := by
  fun_induction simplifyChoices s with
  | case1 => exact Nat.le_refl _
  | case2 s next changed ih =>
    exact ih.trans (Finder.length_replaceAll_lt NumericChoice.shortens_choices changed).le

/-- **Making choices comes to an end, and makes all of them.**  There are no more rounds than question
marks and one, and none can fail, since every condition is read as a number.  No choice is left in the
text, which is no longer than before and stays as it is from then on; and only a text without choices
has done so from the start. -/
theorem simplifyChoices_complete (s : Text) :
    (∃ n ≤ s.count '?', NumericChoice.Rounds (n + 1) s (simplifyChoices s)) ∧
      (∀ inner condition a b : Text, NumericChoice.ChoiceBetween condition a b inner →
        ∃ x, readFloat? (condition.filter fun c => c != '(' && c != ')') = some x) ∧
      ¬ NumericChoice.HasChoice (simplifyChoices s) ∧
      (simplifyChoices s).length ≤ s.length ∧
      simplifyChoices (simplifyChoices s) = simplifyChoices s ∧
      (simplifyChoices s = s ↔ ¬ NumericChoice.HasChoice s) := by
  have settled : ¬ NumericChoice.HasChoice (simplifyChoices s) :=
    NumericChoice.replaceAll_eq_self_iff.mp (replaceAll_simplifyChoices s)
  have stays {t : Text} (none : ¬ NumericChoice.HasChoice t) : simplifyChoices t = t := by
    rw [simplifyChoices, if_pos (NumericChoice.replaceAll_eq_self_iff.mpr none)]
  refine ⟨NumericChoice.exists_rounds s, fun _ _ _ _ between => between.exists_condition, settled,
    length_simplifyChoices_le s, stays settled, fun same => ?_, stays⟩
  rwa [same] at settled

/-- The choice inside is made first, and then the one around it. -/
theorem simplifyChoices_complete_of_nested :
    (∃ n ≤ 2, NumericChoice.Rounds (n + 1) "(1?(0?2:3):4)".toList "3".toList) ∧
      NumericChoice.ChoiceBetween ['0'] ['2'] ['3'] "0?2:3)".toList ∧
      (∃ x, readFloat? ['0'] = some x) ∧ ¬ NumericChoice.HasChoice "3".toList := by
  have result : simplifyChoices "(1?(0?2:3):4)".toList = "3".toList := by decide +kernel
  have row (c : Char) (digit : isDecimalDigit c = true) : NumericChoice.IsLiteral [c] :=
    .plain ⟨[c], [], [], rfl, ⟨by simp, by simpa using digit⟩, .inl rfl, .inl rfl⟩
  have between : NumericChoice.ChoiceBetween ['0'] ['2'] ['3'] "0?2:3)".toList :=
    @NumericChoice.ChoiceBetween.intro ['0'] ['2'] ['3'] [] [] [] [] [] [] (by simp)
      (by simpa using ⟨row '0' rfl, row '2' rfl, row '3' rfl⟩)
  obtain ⟨rounds, conditions, settled, -⟩ := simplifyChoices_complete "(1?(0?2:3):4)".toList
  rw [result] at rounds settled
  exact ⟨rounds, between, conditions _ _ _ _ between, settled⟩

end Haulage
