/-
# What a number is written with

What is read as a number is made of blanks, digits of any script, signs, underscores, the point, and
letters.  A character that is none of these is `IsForeign` and not in the text
(`not_mem_of_readFloat?`): no parenthesis, semicolon or colon, and no comma.
-/
import Haulage.Number.Reader
import Haulage.Proofs.Text.Class

namespace Haulage

/-- The character has no place in a number. -/
structure IsForeign (c : Char) : Prop where
  blank : isBlank c = false
  digit : isDecimalDigit c = false
  lower : c.toLower = c
  sign : c ∉ "+-_.eE".toList
  letter : c ∉ "infinityan".toList

/-- The characters that set arguments and their halves apart. -/
def marks : List Char := ['(', ')', ';', ':']

theorem isForeign_of_mem_marks {c : Char} (mark : c ∈ marks) : IsForeign c := by
  have class_of : ∀ c ∈ marks, isBlank c = false ∧ isDecimalDigit c = false ∧ c.toLower = c ∧
      c ∉ "+-_.eE".toList ∧ c ∉ "infinityan".toList := by decide
  obtain ⟨blank, digit, lower, sign, letter⟩ := class_of c mark
  exact ⟨blank, digit, lower, sign, letter⟩

theorem isForeign_comma : IsForeign ',' :=
  ⟨by decide, by decide, by decide, by decide, by decide⟩

theorem isForeign_quote : IsForeign '"' :=
  ⟨by decide, by decide, by decide, by decide, by decide⟩

/-! ## 1. Parts of a number -/

/-- A foreign character is no digit, so it stands behind the digits. -/
theorem mem_snd_spanDigits {s : Text} {c : Char} (foreign : IsForeign c) (mem : c ∈ s) :
    c ∈ (spanDigits s).2 := by
  have digit : decimalDigit? c = none := by simpa [isDecimalDigit] using foreign.digit
  have notDigit {d : Char} {n : Nat} (is : decimalDigit? d = some n) : c ≠ d := by
    rintro rfl
    rw [digit] at is
    cases is
  have notUnderscore : c ≠ '_' := by
    rintro rfl
    exact foreign.sign (by decide)
  fun_induction spanDigits s with
  | case1 => cases mem
  | case2 => exact mem
  | case3 d n is d' s _ ds rest span ih =>
    rw [span] at ih
    simp only [List.mem_cons, notDigit is, notUnderscore, false_or] at mem
    exact ih (by simpa using mem)
  | case4 d n is d' s =>
    simpa [notDigit is, notUnderscore] using mem
  | case5 d n is s _ ds rest span ih =>
    rw [span] at ih
    exact ih (by simpa [notDigit is] using mem)

/-- It is no sign either. -/
theorem mem_snd_splitSign {s : Text} {c : Char} (foreign : IsForeign c) (mem : c ∈ s) :
    c ∈ (splitSign s).2 := by
  unfold splitSign
  split
  · exact (List.mem_cons.mp mem).resolve_left fun minus => foreign.sign (minus ▸ by decide)
  · exact (List.mem_cons.mp mem).resolve_left fun plus => foreign.sign (plus ▸ by decide)
  · exact mem

theorem not_mem_of_readExponent? {c : Char} (foreign : IsForeign c) {s : Text} {e : Int}
    (h : readExponent? s = some e) : c ∉ s := by
  intro mem
  unfold readExponent? at h
  split at h
  · cases mem
  · rename_i d s
    split at h
    · rename_i exponent
      have mem : c ∈ s := (List.mem_cons.mp mem).resolve_left fun same => by
        subst same
        simp only [Bool.or_eq_true, beq_iff_eq] at exponent
        rcases exponent with rfl | rfl <;> exact foreign.sign (by decide)
      have behind := mem_snd_spanDigits foreign (mem_snd_splitSign foreign mem)
      split at h
      rename_i split
      rw [split] at behind
      split at h
      · cases h
      · rename_i span
        rw [span] at behind
        cases behind
      · cases h
    · cases h

theorem not_mem_of_readDecimal? {c : Char} (foreign : IsForeign c) {s : Text} {d : Scientific}
    (h : readDecimal? s = some d) : c ∉ s := by
  intro mem
  have behind := mem_snd_spanDigits foreign mem
  have exponent {s : Text} {f : Int → Scientific} (h : (readExponent? s).map f = some d)
      (mem : c ∈ s) : False := by
    obtain ⟨e, read, -⟩ := Option.map_eq_some_iff.mp h
    exact not_mem_of_readExponent? foreign read mem
  unfold readDecimal? at h
  split at h
  · rename_i span
    rw [span] at behind
    have behind := (List.mem_cons.mp behind).resolve_left fun point =>
      foreign.sign (point ▸ by decide)
    have behind := mem_snd_spanDigits foreign behind
    split at h
    rename_i span'
    rw [span'] at behind
    split at h
    · cases h
    · exact exponent h behind
  · cases h
  · rename_i span
    rw [span] at behind
    exact exponent h behind

/-! ## 2. Numbers -/

theorem not_mem_of_isWord {c : Char} (foreign : IsForeign c) {word : String} {s : Text}
    (letters : ∀ d ∈ word.toList, d ∈ "infinityan".toList) (h : isWord word s = true) : c ∉ s := by
  intro mem
  have whole : s.map Char.toLower = word.toList := beq_iff_eq.mp h
  exact foreign.letter (letters c (whole ▸ List.mem_map.mpr ⟨c, mem, foreign.lower⟩))

theorem mem_trimNumber {s : Text} {c : Char} (blank : surroundsNumber c = false) (mem : c ∈ s) :
    c ∈ trimNumber s := by
  have kept {s : Text} (mem : c ∈ s) : c ∈ s.dropWhile surroundsNumber := by
    rw [← List.takeWhile_append_dropWhile (p := surroundsNumber) (l := s)] at mem
    refine (List.mem_append.mp mem).resolve_left fun front => ?_
    have := List.all_eq_true.mp List.all_takeWhile c front
    simp [blank] at this
  exact List.mem_reverse.mpr (kept (List.mem_reverse.mpr (kept mem)))

/-- **What is read as a number holds nothing foreign.** -/
theorem not_mem_of_readFloat? {c : Char} (foreign : IsForeign c) {s : Text} {x : Float}
    (h : readFloat? s = some x) : c ∉ s := by
  intro mem
  have inside := mem_snd_splitSign foreign
    (mem_trimNumber (by simp [surroundsNumber, foreign.blank]) mem)
  unfold readFloat? at h
  split at h
  rename_i split
  rw [split] at inside
  obtain ⟨y, read, -⟩ := Option.map_eq_some_iff.mp h
  unfold readUnsigned? at read
  split at read
  · rename_i infinite
    rcases Bool.or_eq_true_iff.mp infinite with word | word
    · exact not_mem_of_isWord foreign (by decide) word inside
    · exact not_mem_of_isWord foreign (by decide) word inside
  · split at read
    · rename_i word
      exact not_mem_of_isWord foreign (by decide) word inside
    · obtain ⟨d, decimal, -⟩ := Option.map_eq_some_iff.mp read
      exact not_mem_of_readDecimal? foreign decimal inside

end Haulage
