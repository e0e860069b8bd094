/-
# The words of a text

A word is an unbroken run of letters, numerals and underscores, and it **stands** in a text where no
such character is next to it.  When a text is cut between words, each of its words stands in one of
the parts (`StandsIn.append_cases`), and what stands in a part that was cut out of a text between
words stands in the text (`StandsIn.of_part`).  So what is said of all words of a text is said part by
part.

A search for the letters of a word finds more: it finds them in longer words as well
(`occursIn_iff`).
-/
import Haulage.Proofs.Text.Search
import Haulage.Text.Word

namespace Haulage

/-! ## 1. Cuts -/

/-- Does no word go on from the one text into the other? -/
def NoCut (x y : Text) : Prop := inWord x.getLast? = false ∨ inWord y.head? = false

namespace NoCut

variable {x y z : Text}

theorem nil_left (y : Text) : NoCut [] y := .inl rfl

theorem nil_right (x : Text) : NoCut x [] := .inr rfl

/-- What is in front of a text matters only where the text is empty. -/
theorem append_left (h : NoCut y z) (outer : y = [] → NoCut x z) : NoCut (x ++ y) z := by
  by_cases empty : y = []
  · subst empty
    simpa using outer rfl
  · rwa [NoCut, List.getLast?_append_of_ne_nil _ empty]

theorem append_right (h : NoCut x y) (outer : y = [] → NoCut x z) : NoCut x (y ++ z) := by
  by_cases empty : y = []
  · subst empty
    exact outer rfl
  · rwa [NoCut, List.head?_append_of_ne_nil _ empty]

end NoCut

/-- Was the text cut out of the other one between words? -/
def Part (x s : Text) : Prop := ∃ a b, s = a ++ (x ++ b) ∧ NoCut a x ∧ NoCut x b

namespace Part

variable {x y s : Text}

theorem refl (s : Text) : Part s s := ⟨[], [], by simp, .nil_left s, .nil_right s⟩

theorem of_append_left (cut : NoCut x y) : Part x (x ++ y) := ⟨[], y, rfl, .nil_left x, cut⟩

theorem of_append_right (cut : NoCut x y) : Part y (x ++ y) :=
  ⟨x, [], by simp, cut, .nil_right y⟩

theorem trans (hx : Part x y) (hy : Part y s) : Part x s := by
  obtain ⟨a, b, rfl, cuta, cutb⟩ := hx
  obtain ⟨c, d, rfl, cutc, cutd⟩ := hy
  refine ⟨c ++ a, b ++ d, by simp, cuta.append_left fun empty => ?_, cutb.append_right fun empty => ?_⟩
  · subst empty
    cases x with
    | nil => exact .nil_right c
    | cons e x => exact cutc
  · subst empty
    cases List.eq_nil_or_concat' x with
    | inl nil =>
      subst nil
      exact .nil_left d
    | inr last =>
      obtain ⟨x, e, rfl⟩ := last
      rcases cutd with h | h
      · exact .inl (by simpa [← List.append_assoc] using h)
      · exact .inr h

theorem isInfix (h : Part x s) : x <:+: s := by
  obtain ⟨a, b, rfl, -, -⟩ := h
  exact ⟨a, b, by simp⟩

end Part

/-! ## 2. Words -/

/-- Is the text a word? -/
structure IsWord (n : Text) : Prop where
  ne_nil : n ≠ []
  all : ∀ c ∈ n, isNameChar c = true

namespace IsWord

variable {n x : Text}

theorem inWord_head? (h : IsWord n) : inWord n.head? = true := by
  obtain ⟨c, cs, rfl⟩ := List.exists_cons_of_ne_nil h.ne_nil
  exact h.all c List.mem_cons_self

theorem inWord_getLast? (h : IsWord n) : inWord n.getLast? = true := by
  rw [List.getLast?_eq_some_getLast h.ne_nil]
  exact h.all _ (List.getLast_mem h.ne_nil)

theorem noCut_left (h : IsWord n) : NoCut x n ↔ inWord x.getLast? = false := by
  simp [NoCut, h.inWord_head?]

theorem noCut_right (h : IsWord n) : NoCut n x ↔ inWord x.head? = false := by
  simp [NoCut, h.inWord_getLast?]

end IsWord

/-- Behind all characters of a word the word does not go on. -/
theorem inWord_head?_dropWhile (cs : Text) : inWord (cs.dropWhile isNameChar).head? = false := by
  have first := List.head?_dropWhile_not isNameChar cs
  cases next : (cs.dropWhile isNameChar).head? with
  | none => rfl
  | some d => simpa [next] using first

/-- In front of all characters of a word it does not begin earlier. -/
theorem inWord_getLast?_rdropWhile (cs : Text) :
    inWord (cs.rdropWhile isNameChar).getLast? = false := by
  by_cases empty : cs.rdropWhile isNameChar = []
  · rw [empty]
    rfl
  · rw [List.getLast?_eq_some_getLast empty]
    exact Bool.eq_false_iff.mpr (List.rdropWhile_last_not isNameChar cs empty)

/-- **Induction word by word.**  A text is empty, or starts with a character of no word, or with a
word that does not go on behind it. -/
@[elab_as_elim]
theorem Text.word_induction {motive : Text → Prop} (nil : motive [])
    (other : ∀ c cs, isNameChar c = false → motive cs → motive (c :: cs))
    (word : ∀ w z, IsWord w → inWord z.head? = false → motive z → motive (w ++ z)) (t : Text) :
    motive t := by
  match t with
  | [] => exact nil
  | c :: cs =>
    cases inside : isNameChar c with
    | false => exact other c cs inside (word_induction nil other word cs)
    | true =>
      have all : ∀ d ∈ cs.takeWhile isNameChar, isNameChar d = true := fun d mem =>
        List.mem_takeWhile_imp mem
      have stop := inWord_head?_dropWhile cs
      have shorter : (cs.dropWhile isNameChar).length ≤ cs.length :=
        (List.dropWhile_suffix _).length_le
      have whole := word (c :: cs.takeWhile isNameChar) _
        ⟨List.cons_ne_nil _ _, List.forall_mem_cons.mpr ⟨inside, all⟩⟩ stop
        (word_induction nil other word (cs.dropWhile isNameChar))
      rwa [List.cons_append, List.takeWhile_append_dropWhile] at whole
termination_by t.length

/-- Does the word stand in the text, with no character of a word next to it? -/
structure StandsIn (n s : Text) : Prop where
  word : IsWord n
  part : Part n s

namespace StandsIn

variable {n x y s : Text}

theorem of_part (h : StandsIn n x) (part : Part x s) : StandsIn n s := ⟨h.word, h.part.trans part⟩

/-- **A word stands on one side** of a cut between words. -/
theorem append_cases (h : StandsIn n (x ++ y)) (cut : NoCut x y) : StandsIn n x ∨ StandsIn n y := by
  obtain ⟨word, a, b, whole, front, back⟩ := h
  rw [word.noCut_left] at front
  rw [word.noCut_right] at back
  have left {a b : Text} (whole : x = a ++ (n ++ b)) (front : inWord a.getLast? = false)
      (back : inWord b.head? = false) : StandsIn n x :=
    ⟨word, a, b, whole, word.noCut_left.mpr front, word.noCut_right.mpr back⟩
  have right {a b : Text} (whole : y = a ++ (n ++ b)) (front : inWord a.getLast? = false)
      (back : inWord b.head? = false) : StandsIn n y :=
    ⟨word, a, b, whole, word.noCut_left.mpr front, word.noCut_right.mpr back⟩
  rcases List.append_eq_append_iff.mp whole with ⟨a', rfl, behind⟩ | ⟨c, rfl, behind⟩
  · refine .inr (right behind ?_ back)
    by_cases empty : a' = []
    · subst empty
      rfl
    · rwa [List.getLast?_append_of_ne_nil _ empty] at front
  rcases List.append_eq_append_iff.mp behind with ⟨d, rfl, rfl⟩ | ⟨n', rfl, rfl⟩
  · refine .inl (left rfl front ?_)
    by_cases empty : d = []
    · subst empty
      rfl
    · rwa [List.head?_append_of_ne_nil _ empty] at back
  -- the word would be cut
  by_cases empty : n' = []
  · subst empty
    rw [List.append_nil] at left ⊢
    exact .inl (left (b := []) (by simp) front rfl)
  by_cases empty' : c = []
  · subst empty'
    exact .inr (right (a := []) rfl rfl back)
  have first : inWord c.getLast? = true :=
    (⟨empty', fun d mem => word.all d (List.mem_append_left _ mem)⟩ : IsWord c).inWord_getLast?
  have second : inWord n'.head? = true :=
    (⟨empty, fun d mem => word.all d (List.mem_append_right _ mem)⟩ : IsWord n').inWord_head?
  rcases cut with cut | cut
  · rw [List.getLast?_append_of_ne_nil _ empty', first] at cut
    cases cut
  · rw [List.head?_append_of_ne_nil _ empty, second] at cut
    cases cut

/-- Behind characters of a word a word is prolonged, or stands as it did. -/
theorem append_word_cases {w : Text} (inside : ∀ c ∈ w, isNameChar c = true)
    (h : StandsIn n (w ++ y)) : (∃ z, n = w ++ z) ∨ StandsIn n y := by
  obtain ⟨word, a, b, whole, front, back⟩ := h
  have front' := word.noCut_left.mp front
  rw [word.noCut_right] at back
  rcases List.append_eq_append_iff.mp whole with ⟨a', rfl, rfl⟩ | ⟨c, rfl, behind⟩
  · by_cases empty : a' = []
    · subst empty
      by_cases nil : w = []
      · subst nil
        exact .inl ⟨n, rfl⟩
      · rw [List.append_nil, (⟨nil, inside⟩ : IsWord w).inWord_getLast?] at front'
        cases front'
    · rw [List.getLast?_append_of_ne_nil _ empty] at front'
      exact .inr ⟨word, a', b, rfl, word.noCut_left.mpr front', word.noCut_right.mpr back⟩
  · -- no character of a word stands in front of the word, so it starts with the text
    obtain rfl : a = [] := Decidable.byContradiction fun nonempty => by
      have word' : IsWord a := ⟨nonempty, fun d mem => inside d (List.mem_append_left _ mem)⟩
      rw [word'.inWord_getLast?] at front'
      cases front'
    rcases List.append_eq_append_iff.mp behind with ⟨d, rfl, rfl⟩ | ⟨z, rfl, -⟩
    · by_cases empty : d = []
      · subst empty
        exact .inl ⟨[], by simp⟩
      · have word' : IsWord d := ⟨empty, fun e mem => inside e (by simp [mem])⟩
        rw [List.head?_append_of_ne_nil _ empty, word'.inWord_head?] at back
        cases back
    · exact .inl ⟨z, rfl⟩

/-- In a word only the word itself stands. -/
theorem eq_of_word {w : Text} (inside : ∀ c ∈ w, isNameChar c = true) (h : StandsIn n w) :
    n = w := by
  obtain ⟨word, a, b, rfl, front, back⟩ := h
  rw [word.noCut_left] at front
  rw [word.noCut_right] at back
  obtain rfl : a = [] := Decidable.byContradiction fun nonempty => by
    have word' : IsWord a := ⟨nonempty, fun d mem => inside d (by simp [mem])⟩
    rw [word'.inWord_getLast?] at front
    cases front
  obtain rfl : b = [] := Decidable.byContradiction fun nonempty => by
    have word' : IsWord b := ⟨nonempty, fun d mem => inside d (by simp [mem])⟩
    rw [word'.inWord_head?] at back
    cases back
  simp

end StandsIn

/-! ## 3. Parts of words -/

/-- What occurs in a text and could be a word is a part of a word that stands there. -/
theorem exists_word_around {n s : Text} (word : IsWord n) (h : n <:+: s) :
    ∃ w, StandsIn w s ∧ n <:+: w := by
  obtain ⟨a, b, rfl⟩ := h
  -- the characters of words directly in front of it, and directly behind
  let front := a.rtakeWhile isNameChar
  let back := b.takeWhile isNameChar
  have all : ∀ c ∈ front ++ (n ++ back), isNameChar c = true := by
    intro c mem
    rcases List.mem_append.mp mem with mem | mem
    · exact List.mem_rtakeWhile_imp mem
    · rcases List.mem_append.mp mem with mem | mem
      · exact word.all c mem
      · exact List.mem_takeWhile_imp mem
  have whole : IsWord (front ++ (n ++ back)) := ⟨by simp [word.ne_nil], all⟩
  have cut : a ++ n ++ b =
      a.rdropWhile isNameChar ++ ((front ++ (n ++ back)) ++ b.dropWhile isNameChar) := by
    have left : a.rdropWhile isNameChar ++ front = a := List.rdropWhile_append_rtakeWhile
    have right : back ++ b.dropWhile isNameChar = b := List.takeWhile_append_dropWhile
    conv_lhs => rw [← left, ← right]
    simp only [List.append_assoc]
  have stands : StandsIn (front ++ (n ++ back)) (a ++ n ++ b) :=
    ⟨whole, _, _, cut, whole.noCut_left.mpr (inWord_getLast?_rdropWhile a),
      whole.noCut_right.mpr (inWord_head?_dropWhile b)⟩
  exact ⟨_, stands, front, back, by simp only [List.append_assoc]⟩

/-- Do the letters of the name occur in a longer word of the text? -/
def Buried (n s : Text) : Prop := ∃ w, StandsIn w s ∧ n <:+: w ∧ n ≠ w

theorem occursIn_iff_isInfix {n s : Text} : Text.occursIn n s = true ↔ n <:+: s := by
  induction s with
  | nil => simp [Text.occursIn]
  | cons c s ih => simp [Text.occursIn, ih, List.infix_cons_iff]

/-- **The letters of a name occur** as the name, or they are buried in a longer word. -/
theorem occursIn_iff {n s : Text} (word : IsWord n) :
    Text.occursIn n s = true ↔ StandsIn n s ∨ Buried n s := by
  rw [occursIn_iff_isInfix]
  constructor
  · intro h
    obtain ⟨w, stands, part⟩ := exists_word_around word h
    by_cases same : n = w
    · exact .inl (same ▸ stands)
    · exact .inr ⟨w, stands, part, same⟩
  · rintro (stands | ⟨w, stands, part, -⟩)
    · exact stands.part.isInfix
    · exact part.trans stands.part.isInfix

/-! ## 4. All words -/

/-- Are all words of the text of the kind? -/
def AllWords (P : Text → Prop) (s : Text) : Prop := ∀ n, StandsIn n s → P n

namespace AllWords

variable {P : Text → Prop} {x y s : Text}

theorem of_part (h : AllWords P s) (part : Part x s) : AllWords P x :=
  fun n stands => h n (stands.of_part part)

theorem append (hx : AllWords P x) (hy : AllWords P y) (cut : NoCut x y) : AllWords P (x ++ y) :=
  fun n stands => (stands.append_cases cut).elim (hx n) (hy n)

theorem of_wordless (none : ∀ c ∈ x, isNameChar c = false) : AllWords P x := by
  rintro n ⟨word, part⟩
  obtain ⟨c, cs, rfl⟩ := List.exists_cons_of_ne_nil word.ne_nil
  have inside := none c (part.isInfix.mem List.mem_cons_self)
  simp [word.all c List.mem_cons_self] at inside

theorem of_word {w : Text} (inside : ∀ c ∈ w, isNameChar c = true) (h : P w) : AllWords P w :=
  fun _ stands => (stands.eq_of_word inside) ▸ h

end AllWords

/-- Does the text start with a digit? -/
def Numeric (n : Text) : Prop := n.head?.any isDigitLike = true

/-- Digits in front of a text make a word that starts with them. -/
theorem AllWords.append_digits {P : Text → Prop} {w y : Text} (numeric : ∀ n, Numeric n → P n)
    (inside : ∀ c ∈ w, isNameChar c = true) (first : Numeric w) (hy : AllWords P y) :
    AllWords P (w ++ y) := by
  intro n stands
  rcases stands.append_word_cases inside with ⟨z, rfl⟩ | stands
  · refine numeric _ ?_
    cases w with
    | nil => cases first
    | cons c w => exact first
  · exact hy n stands

end Haulage
