/-
# Classes of characters apart from each other

The classes of characters are tables of ranges, and a lexer relies on some of them having nothing in
common: a blank belongs to no word (`isNameChar_of_isBlank`), a digit is no letter
(`isLetter_of_isDigitLike`), the variants of a Latin capital are few and are all letters
(`mem_latinLetters_of_sameLetter`), and blanks and parentheses have no variants
(`eq_of_sameLetter`).  All of these are facts about whole tables.  The first two compare their
ranges; the third looks for the runs of the case table that end in a small letter of ASCII, and the
last compares the ranges with the runs.
-/
import Haulage.Shorthand.Call
import Mathlib

namespace Haulage

/-- What holds of each character of a text is decided along the text.  There are finitely many
characters in all, so that without this a search through them would do it. -/
instance (priority := 2000) decidableForallMem (p : Char → Prop) [DecidablePred p] (t : Text) :
    Decidable (∀ c ∈ t, p c) :=
  List.decidableBAll p t

/-! ## 1. Tables without a common character -/

/-- Does no range of one table meet a range of the other? -/
def rangesApart (rs ts : List (Nat × Nat)) : Bool :=
  rs.all fun r => ts.all fun t => Nat.blt r.2 t.1 || Nat.blt t.2 r.1

theorem exists_range_of_inRanges {ranges : List (Nat × Nat)} {c : Char}
    (h : inRanges ranges c = true) : ∃ r ∈ ranges, r.1 ≤ c.toNat ∧ c.toNat ≤ r.2 := by
  obtain ⟨r, hr, hc⟩ := List.any_eq_true.mp h
  exact ⟨r, hr, by simpa using hc⟩

theorem not_inRanges_of_apart {rs ts : List (Nat × Nat)} {c : Char}
    (apart : rangesApart rs ts = true) (h : inRanges rs c = true) : inRanges ts c = false := by
  rw [Bool.eq_false_iff]
  intro h'
  obtain ⟨r, hr, _, _⟩ := exists_range_of_inRanges h
  obtain ⟨t, ht, _, _⟩ := exists_range_of_inRanges h'
  have := List.all_eq_true.mp (List.all_eq_true.mp apart r hr) t ht
  simp only [Bool.or_eq_true, Nat.blt_eq] at this
  omega

/-- The runs of decimal digits as ranges. -/
def decimalRanges : List (Nat × Nat) := decimalZeros.map fun n => (n, n + 9)

/-- The letters of ASCII as ranges. -/
def asciiLetterRanges : List (Nat × Nat) := [(0x41, 0x5A), (0x61, 0x7A)]

theorem inRanges_of_isDecimalDigit {c : Char} (h : isDecimalDigit c = true) :
    inRanges decimalRanges c = true := by
  rw [isDecimalDigit, decimalDigit?] at h
  split at h
  · split at h
    · rename_i digit
      have : 48 ≤ c.toNat ∧ c.toNat ≤ 57 := by
        simp only [Char.isDigit, Bool.and_eq_true, decide_eq_true_eq, ge_iff_le,
          UInt32.le_iff_toNat_le] at digit
        exact digit
      exact List.any_eq_true.mpr ⟨(48, 57), by decide, by simpa using this⟩
    · simp at h
  · simp only [Option.isSome_map, List.find?_isSome] at h
    obtain ⟨n, hn, hc⟩ := h
    refine List.any_eq_true.mpr ⟨(n, n + 9), List.mem_map.mpr ⟨n, hn, rfl⟩, ?_⟩
    simp only [Bool.and_eq_true, decide_eq_true_eq] at hc ⊢
    omega

theorem inRanges_of_isAlpha {c : Char} (h : c.isAlpha = true) :
    inRanges asciiLetterRanges c = true := by
  have : (65 ≤ c.toNat ∧ c.toNat ≤ 90) ∨ (97 ≤ c.toNat ∧ c.toNat ≤ 122) := by
    simp only [Char.isAlpha, Char.isUpper, Char.isLower, Bool.or_eq_true, Bool.and_eq_true,
      decide_eq_true_eq, ge_iff_le, UInt32.le_iff_toNat_le] at h
    exact h
  simpa [inRanges, asciiLetterRanges] using this

/-- A character of a table that stands apart from all letters is none. -/
theorem isLetter_of_apart {rs : List (Nat × Nat)} {c : Char}
    (apart : rangesApart rs (asciiLetterRanges ++ letterRanges) = true)
    (h : inRanges rs c = true) : isLetter c = false := by
  have none := not_inRanges_of_apart apart h
  simp only [inRanges, List.any_append, Bool.or_eq_false_iff] at none
  rw [isLetter]
  split
  · exact Bool.eq_false_iff.mpr fun alpha =>
      Bool.eq_false_iff.mp none.1 (inRanges_of_isAlpha alpha)
  · exact none.2

/-- A character of a table that stands apart from all numerals is none. -/
theorem isNumeral_of_apart {rs : List (Nat × Nat)} {c : Char}
    (apart : rangesApart rs (decimalRanges ++ (loneDigitRanges ++ numeralRanges)) = true)
    (h : inRanges rs c = true) : isNumeral c = false := by
  have none := not_inRanges_of_apart apart h
  simp only [inRanges, List.any_append, Bool.or_eq_false_iff] at none
  have decimal : isDecimalDigit c = false :=
    Bool.eq_false_iff.mpr fun digit =>
      Bool.eq_false_iff.mp none.1 (inRanges_of_isDecimalDigit digit)
  simp [isNumeral, isDigitLike, decimal, inRanges, none.2]

/-- The tables of digits and letters, and those of blanks and what words are made of, stand apart. -/
theorem tables_apart :
    rangesApart (decimalRanges ++ loneDigitRanges) (asciiLetterRanges ++ letterRanges) = true ∧
    rangesApart blankRanges (asciiLetterRanges ++ letterRanges) = true ∧
    rangesApart blankRanges (decimalRanges ++ (loneDigitRanges ++ numeralRanges)) = true := by
  decide +kernel

/-- **A digit is no letter.** -/
theorem isLetter_of_isDigitLike {c : Char} (h : isDigitLike c = true) : isLetter c = false := by
  refine isLetter_of_apart tables_apart.1 ?_
  simp only [isDigitLike, Bool.or_eq_true, Bool.and_eq_true] at h
  rw [inRanges, List.any_append, Bool.or_eq_true]
  exact h.imp inRanges_of_isDecimalDigit And.right

theorem isAlpha_of_isDigitLike {c : Char} (h : isDigitLike c = true) : c.isAlpha = false := by
  rw [Bool.eq_false_iff]
  intro alpha
  obtain ⟨r, mem, -, high⟩ := exists_range_of_inRanges (inRanges_of_isAlpha alpha)
  have bound : ∀ r ∈ asciiLetterRanges, r.2 < 128 := by decide
  have letter := isLetter_of_isDigitLike h
  rw [isLetter_of_ascii (Nat.lt_of_le_of_lt high (bound r mem)), alpha] at letter
  cases letter

/-- What starts a name is no digit. -/
theorem isDigitLike_of_isNameStart {c : Char} (h : isNameStart c = true) :
    isDigitLike c = false := by
  simp only [isNameStart, Bool.or_eq_true, beq_iff_eq] at h
  rcases h with letter | rfl
  · exact Bool.eq_false_iff.mpr fun digit =>
      Bool.eq_false_iff.mp (isLetter_of_isDigitLike digit) letter
  · decide

/-- **A blank belongs to no word.** -/
theorem isNameChar_of_isBlank {c : Char} (h : isBlank c = true) : isNameChar c = false := by
  have letter : isLetter c = false := isLetter_of_apart tables_apart.2.1 h
  have numeral : isNumeral c = false := isNumeral_of_apart tables_apart.2.2 h
  have underscore : (c == '_') = false := by
    rw [beq_eq_false_iff_ne]
    rintro rfl
    exact absurd h (by decide)
  simp [isNameChar, letter, numeral, underscore]

theorem isNameChar_of_isDigitLike {c : Char} (h : isDigitLike c = true) : isNameChar c = true := by
  simp [isNameChar, isNumeral_of_isDigitLike h]

/-! ## 2. The variants of a Latin capital -/

/-- The letters of ASCII in both cases, and the four letters outside ASCII that a capital of ASCII
is the same as up to case. -/
def latinLetters : Text :=
  "ABCDEFGHIJKLMNOPQRSTUVWXYZabcdefghijklmnopqrstuvwxyz".toList ++
    ['\u0130', '\u0131', '\u017f', '\u212a']

/-- Does every character of the run whose representative is a small letter of ASCII stand among the
Latin letters? -/
def CaseRun.staysLatin (run : CaseRun) : Bool :=
  122 < run.first + run.shift || run.last + run.shift < 97 ||
    (List.range' 97 26).all fun n =>
      n < run.first + run.shift || run.last + run.shift < n ||
        latinLetters.contains (Char.ofNat ((n : Int) - run.shift).toNat)

theorem staysLatin_of_mem_caseRuns : ∀ run ∈ caseRuns, run.staysLatin = true := by decide +kernel

theorem toNat_ofNat_eq {n t : Nat} (positive : 0 < t) (h : (Char.ofNat n).toNat = t) : n = t := by
  by_cases valid : n.isValidChar
  · rwa [Char.ofNat, dif_pos valid] at h
  · rw [Char.ofNat, dif_neg valid] at h
    exact absurd h (Nat.ne_of_lt positive)

/-- A character of the case table whose representative is a small letter of ASCII. -/
theorem mem_latinLetters_of_run {run : CaseRun} {c : Char} (mem : run ∈ caseRuns)
    (covers : run.covers c = true) {t : Nat} (low : 97 ≤ t) (high : t ≤ 122)
    (h : (Char.ofNat (c.toNat + run.shift).toNat).toNat = t) : c ∈ latinLetters := by
  have shifted : (c.toNat + run.shift).toNat = t := toNat_ofNat_eq (by omega) h
  have inside : run.first ≤ c.toNat ∧ c.toNat ≤ run.last := by
    simp only [CaseRun.covers, Bool.and_eq_true, decide_eq_true_eq] at covers
    exact covers.1
  have stays := staysLatin_of_mem_caseRuns run mem
  simp only [CaseRun.staysLatin, Bool.or_eq_true, decide_eq_true_eq, List.all_eq_true,
    List.contains_iff_mem] at stays
  have := stays.resolve_left (by omega) t (by simp only [List.mem_range'_1]; omega)
  have found := this.resolve_left (by omega)
  rwa [show ((t : Int) - run.shift).toNat = c.toNat by omega, Char.ofNat_toNat] at found

theorem mem_latinLetters_of_ascii : ∀ n < 128, 97 ≤ (Char.ofNat n).toLower.toNat →
    (Char.ofNat n).toLower.toNat ≤ 122 → Char.ofNat n ∈ latinLetters := by decide

/-- The capitals of ASCII. -/
def latinCapitals : Text := "ABCDEFGHIJKLMNOPQRSTUVWXYZ".toList

theorem foldCase_of_mem_latinCapitals : ∀ w ∈ latinCapitals,
    97 ≤ (foldCase w).toNat ∧ (foldCase w).toNat ≤ 122 := by decide

/-- **The variants of a capital.**  What is the same letter as a capital of ASCII up to case is a
letter of ASCII or one of four others. -/
theorem mem_latinLetters_of_sameLetter {w c : Char} (capital : w ∈ latinCapitals)
    (h : sameLetter w c = true) : c ∈ latinLetters := by
  obtain ⟨low, high⟩ := foldCase_of_mem_latinCapitals w capital
  have same : foldCase c = foldCase w := (beq_iff_eq.mp h).symm
  rw [← same] at low high
  rw [foldCase] at low high
  split at low
  · rename_i ascii
    rw [if_pos ascii] at high
    have := mem_latinLetters_of_ascii c.toNat ascii
    rw [Char.ofNat_toNat] at this
    exact this low high
  · rename_i wide
    rw [if_neg wide] at high
    split at low
    · rename_i run found
      rw [found] at high
      exact mem_latinLetters_of_run (List.mem_of_find?_eq_some found)
        (by simpa using List.find?_some found) low high rfl
    · rename_i found
      simp only [found] at high
      omega

/-- What the Latin letters are and are not. -/
theorem class_of_mem_latinLetters : ∀ c ∈ latinLetters,
    isLetter c = true ∧ isDigitLike c = false ∧ isBlank c = false := by decide +kernel

theorem isNameChar_of_mem_latinLetters {c : Char} (h : c ∈ latinLetters) : isNameChar c = true := by
  simp [isNameChar, (class_of_mem_latinLetters c h).1]

/-! ## 3. Characters without case -/

/-- The parentheses and the blanks.  No letter is the same as one of them. -/
def caselessRanges : List (Nat × Nat) := (0x28, 0x29) :: blankRanges

theorem positive_of_mem_caselessRanges : ∀ r ∈ caselessRanges, 0 < r.1 := by decide

/-- Does no range without case meet the characters of the run, or their representatives? -/
def CaseRun.hasCase (run : CaseRun) : Bool :=
  caselessRanges.all fun r => (run.last < r.1 || r.2 < run.first) &&
    (run.last + run.shift < r.1 || r.2 < run.first + run.shift)

theorem hasCase_of_mem_caseRuns : ∀ run ∈ caseRuns, run.hasCase = true := by decide +kernel

theorem toLower_of_caseless : ∀ n < 128, inRanges caselessRanges (Char.ofNat n) = true ∨
    inRanges caselessRanges (Char.ofNat n).toLower = true →
      (Char.ofNat n).toLower = Char.ofNat n := by decide

/-- A character without case is its own representative, and that of no other. -/
theorem foldCase_eq_self {c : Char}
    (h : inRanges caselessRanges c = true ∨ inRanges caselessRanges (foldCase c) = true) :
    foldCase c = c := by
  unfold foldCase at h ⊢
  split
  · rename_i ascii
    rw [if_pos ascii] at h
    have := toLower_of_caseless c.toNat ascii
    rw [Char.ofNat_toNat] at this
    exact this h
  · rename_i wide
    rw [if_neg wide] at h
    split
    · rename_i run found
      rw [found] at h
      have covers : run.first ≤ c.toNat ∧ c.toNat ≤ run.last := by
        have := List.find?_some found
        simp only [CaseRun.covers, Bool.and_eq_true, decide_eq_true_eq] at this
        exact this.1
      have apart := hasCase_of_mem_caseRuns run (List.mem_of_find?_eq_some found)
      simp only [CaseRun.hasCase, List.all_eq_true, Bool.and_eq_true, Bool.or_eq_true,
        decide_eq_true_eq] at apart
      rcases h with inside | image
      · obtain ⟨r, mem, _, _⟩ := exists_range_of_inRanges inside
        have := (apart r mem).1
        omega
      · obtain ⟨r, mem, low, high⟩ := exists_range_of_inRanges image
        have positive := positive_of_mem_caselessRanges r mem
        have shifted := toNat_ofNat_eq (Nat.lt_of_lt_of_le positive low) rfl
        dsimp only at low high shifted
        have := (apart r mem).2
        omega
    · rfl

/-- **No letter is the same as a character without case.** -/
theorem eq_of_sameLetter {w c : Char} (same : sameLetter w c = true)
    (caseless : inRanges caselessRanges w = true ∨ inRanges caselessRanges c = true) : w = c := by
  have fold : foldCase w = foldCase c := beq_iff_eq.mp same
  have self : foldCase w = w ∧ foldCase c = c := by
    rcases caseless with first | second
    · have self := foldCase_eq_self (.inl first)
      exact ⟨self, foldCase_eq_self (.inr (by rwa [← fold, self]))⟩
    · have self := foldCase_eq_self (.inl second)
      exact ⟨foldCase_eq_self (.inr (by rwa [fold, self])), self⟩
  rw [← self.1, fold, self.2]

theorem caseless_of_isBlank {c : Char} (blank : isBlank c = true) :
    inRanges caselessRanges c = true := by
  simp only [caselessRanges, inRanges, List.any_cons, Bool.or_eq_true]
  exact .inr blank

/-- What is the same letter as a blank is blank. -/
theorem isBlank_of_sameLetter {w c : Char} (same : sameLetter w c = true) :
    isBlank c = isBlank w := by
  rw [Bool.eq_iff_iff]
  constructor
  · intro blank
    rwa [eq_of_sameLetter same (.inr (caseless_of_isBlank blank))]
  · intro blank
    rwa [← eq_of_sameLetter same (.inl (caseless_of_isBlank blank))]

/-- What is the same letter as a parenthesis is that parenthesis. -/
theorem eq_paren_of_sameLetter {w c : Char} (same : sameLetter w c = true)
    (paren : c = '(' ∨ c = ')') : w = c :=
  eq_of_sameLetter same (.inr (by rcases paren with rfl | rfl <;> decide))

end Haulage
