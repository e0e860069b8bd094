/-
# Calls replaced in a text

Spelling out the calls of one shorthand keeps every character between them and puts a content in
place of each.  `ReplacesCalls R before s s' n` says so of two texts, and that it happened `n` times; `R`
is what is known of a shorthand, the body of its call and the content.  Every search for calls gives
such a pair (`Finder.Takes.replaces`).

What is written around the contents does not notice.  A body is closed in the second text where it
is in the first, and cuts the two in step (`ReplacesCalls.bodyOf?`); a head stays one
(`ReplacesCalls.behind_front`).  New heads come about only in one way: a name that stood in front of a
call has parentheses behind it when the content starts with one, and between those no semicolon
stands alone (`ReplacesCalls.exists_front`).
-/
import Haulage.Proofs.Shorthand.Lockstep

namespace Haulage

/-! ## 1. Contents -/

/-- What may be put in place of a call: something that no call begins or ends in, or parentheses in
which no semicolon stands alone. -/
def IsContent (y : Text) : Prop :=
  (y ≠ [] ∧ ∀ c ∈ y, (c ∉ latinLetters ∧ isBlank c = false) ∧ c ≠ ';' ∧ c ≠ '(' ∧ c ≠ ')') ∨
    ∃ m, y = '(' :: (m ++ [')']) ∧ Grouped (· ≠ ';') m

theorem IsContent.grouped {y : Text} (h : IsContent y) : Grouped (· ≠ ';') y := by
  rcases h with ⟨-, others⟩ | ⟨m, rfl, grouped⟩
  · exact .of_forall fun c mem => (others c mem).2
  · exact .group (grouped.mono fun _ _ => trivial) .nil

/-- An integer, with its sign, may be put in place of a call. -/
theorem IsContent.integerText (n : Int) : IsContent (integerText n) := by
  refine .inl ⟨?_, fun c mem => ⟨?_, (isFigure_of_mem_integerText n c mem).plain⟩⟩
  · rw [Haulage.integerText]
    split
    · exact List.cons_ne_nil _ _
    · exact digitsOf_ne_nil _
  · rcases mem_integerText mem with rfl | digit
    · decide
    · refine ⟨fun letter => ?_, Bool.eq_false_iff.mpr fun blank => ?_⟩
      · simp [isDigit_of_mem_latinLetters letter] at digit
      · simp [isDigit_of_isBlank blank] at digit

/-! ## 2. Replacing calls -/

/-- The second text has contents in place of so many calls of the first. -/
inductive ReplacesCalls (R : Shorthand → Text → Text → Prop) : Option Char → Text → Text → Nat → Prop
  | nil (before : Option Char) : ReplacesCalls R before [] [] 0
  | keep {before : Option Char} (c : Char) {s s' : Text} {n : Nat}
      (more : ReplacesCalls R (some c) s s' n) : ReplacesCalls R before (c :: s) (c :: s') n
  | swap {before : Option Char} {k : Shorthand} {word front body y s s' : Text} {n : Nat}
      (outside : inWord before = false) (isFront : IsFront k.name.toList word front)
      (grouped : Grouped (fun _ => True) body) (content : IsContent y) (related : R k body y)
      (more : ReplacesCalls R (some ')') s s' n) :
      ReplacesCalls R before (front ++ '(' :: (body ++ ')' :: s)) (y ++ s') (n + 1)

/-- A call is passed over as a whole. -/
theorem IsFront.grouped {name word front body : Text} (h : IsFront name word front)
    (sn : ShorthandName name) (grouped : Grouped (fun _ => True) body) :
    Grouped (· ≠ ';') (front ++ '(' :: (body ++ [')'])) :=
  (Grouped.of_forall (h.plain sn)).append (.group grouped .nil)

namespace ReplacesCalls

variable {R : Shorthand → Text → Text → Prop} {before : Option Char} {s s' : Text} {n : Nat}

/-- Everything may stay. -/
theorem refl (before : Option Char) : (s : Text) → ReplacesCalls R before s s 0
  | [] => .nil before
  | c :: s => .keep c (refl (some c) s)

/-- Where no call is replaced everything stays. -/
theorem eq_of_zero (h : ReplacesCalls R before s s' n) (none : n = 0) : s' = s := by
  induction h with
  | nil => rfl
  | keep c _ ih => rw [ih none]
  | swap => cases none

/-- The first character stays, unless a call begins with it. -/
theorem cons_cases {c : Char} (h : ReplacesCalls R before (c :: s) s' n) :
    (∃ t, s' = c :: t ∧ ReplacesCalls R (some c) s t n) ∨
      inWord before = false ∧ c ∈ latinLetters := by
  generalize whole : c :: s = u at h
  cases h with
  | nil => cases whole
  | keep c more =>
    obtain ⟨rfl, rfl⟩ := List.cons.inj whole
    exact .inl ⟨_, rfl, more⟩
  | @swap _ k _ front _ _ _ _ _ outside isFront =>
    obtain ⟨d, front, rfl⟩ := List.exists_cons_of_ne_nil (isFront.ne_nil k.shorthandName.ne_nil)
    obtain ⟨rfl, -⟩ := List.cons.inj whole
    obtain ⟨-, -, -, letter, -⟩ := isFront.uncons k.shorthandName
    exact .inr ⟨outside, letter⟩

/-! ## 3. Bodies -/

/-- A body is closed in neither text, or in both; then it is replaced in, and so is what follows. -/
def CutsInStep (R : Shorthand → Text → Text → Prop) (before : Option Char) (depth : Nat)
    (s s' : Text) (n : Nat) : Prop :=
  bodyOf? depth s = none ∧ bodyOf? depth s' = none ∨
    ∃ b b' r r' n₁ n₂, bodyOf? depth s = some b ∧ bodyOf? depth s' = some b' ∧
      s = b ++ ')' :: r ∧ s' = b' ++ ')' :: r' ∧ ReplacesCalls R before b b' n₁ ∧
      ReplacesCalls R (some ')') r r' n₂ ∧ n = n₁ + n₂

/-- **Bodies are cut in step.** -/
theorem cutsInStep (h : ReplacesCalls R before s s' n) (depth : Nat) :
    CutsInStep R before depth s s' n := by
  induction h generalizing depth with
  | nil => exact .inl ⟨rfl, rfl⟩
  | @keep before c s s' n more ih =>
    -- A character that does not end the body goes on with another number of open parentheses.
    have pass {depth : Nat} (depth' : Nat) (step : ∀ t, bodyOf? depth (c :: t) =
        (bodyOf? depth' t).map (c :: ·)) : CutsInStep R before depth (c :: s) (c :: s') n := by
      rcases ih depth' with ⟨none, none'⟩ |
        ⟨b, b', r, r', n₁, n₂, body, body', rfl, rfl, inside, behind, rfl⟩
      · exact .inl ⟨by rw [step, none, Option.map_none], by rw [step, none', Option.map_none]⟩
      · exact .inr ⟨c :: b, c :: b', r, r', n₁, n₂, by rw [step, body, Option.map_some],
          by rw [step, body', Option.map_some], rfl, rfl, .keep c inside, behind, rfl⟩
    by_cases opens : c = '('
    · subst opens
      exact pass (depth + 1) fun t => rfl
    · by_cases closes : c = ')'
      · subst closes
        cases depth with
        | zero => exact .inr ⟨[], [], s, s', 0, n, rfl, rfl, rfl, rfl, .nil _, more, by omega⟩
        | succ depth => exact pass depth fun t => rfl
      · exact pass depth fun t => by simp [bodyOf?, opens, closes]
  | @swap before k word front body y s s' n outside isFront grouped content related more ih =>
    have call := isFront.grouped k.shorthandName grouped
    have whole (t : Text) : front ++ '(' :: (body ++ ')' :: t) =
        front ++ '(' :: (body ++ [')']) ++ t := by simp
    rcases ih depth with ⟨none, none'⟩ |
      ⟨b, b', r, r', n₁, n₂, body₁, body₂, rfl, rfl, inside, behind, rfl⟩
    · refine .inl ⟨?_, ?_⟩
      · rw [whole, call.bodyOf?_append, none, Option.map_none]
      · rw [content.grouped.bodyOf?_append, none', Option.map_none]
    · refine .inr ⟨front ++ '(' :: (body ++ ')' :: b), y ++ b', r, r', n₁ + 1, n₂, ?_, ?_, ?_, ?_,
        .swap outside isFront grouped content related inside, behind, by omega⟩
      · rw [whole, call.bodyOf?_append, body₁, Option.map_some, ← whole]
      · rw [content.grouped.bodyOf?_append, body₂, Option.map_some]
      · simp
      · simp

end ReplacesCalls

/-! ## 4. Semicolons -/

/-- Does a semicolon stand alone up to the parenthesis that closes, when so many others are open? -/
def listsMore : Nat → Text → Bool
  | _, [] => false
  | depth, c :: cs =>
    if c = '(' then listsMore (depth + 1) cs
    else if c = ')' then depth != 0 && listsMore (depth - 1) cs
    else if c = ';' ∧ depth = 0 then true
    else listsMore depth cs

/-- Semicolons in parentheses do not count. -/
theorem Grouped.listsMore_append {p : Char → Prop} {x : Text} (h : Grouped p x) (depth : Nat)
    (outside : depth = 0 → ∀ c, p c → c ≠ ';') (rest : Text) :
    listsMore depth (x ++ rest) = listsMore depth rest := by
  induction h generalizing depth rest with
  | nil => rfl
  | @plain _ c cs here notOpen notClose _ ih =>
    have other : ¬(c = ';' ∧ depth = 0) := fun both => outside both.2 c here both.1
    rw [List.cons_append, listsMore, if_neg notOpen, if_neg notClose, if_neg other, ih depth outside]
  | @group _ x y _ _ ihx ihy =>
    have inner := ihx (depth + 1) (fun zero => by omega) (')' :: (y ++ rest))
    simpa [listsMore, inner] using ihy depth outside rest

theorem listsMore_of_grouped {m : Text} (h : Grouped (· ≠ ';') m) : listsMore 0 m = false := by
  have := h.listsMore_append 0 (fun _ _ => id) []
  rwa [List.append_nil] at this

/-- A body in which no semicolon stands alone lists one argument. -/
theorem grouped_of_not_listsMore {body : Text} (h : Grouped (fun _ => True) body)
    (one : listsMore 0 body = false) : Grouped (· ≠ ';') body := by
  generalize any : (fun _ : Char => True) = p at h
  induction h with
  | nil => exact .nil
  | @plain _ c cs _ notOpen notClose _ ih =>
    rw [listsMore, if_neg notOpen, if_neg notClose] at one
    split at one
    · cases one
    · rename_i other
      exact .plain (fun semicolon => other ⟨semicolon, rfl⟩) notOpen notClose (ih one any)
  | @group _ x y inside _ _ ihy =>
    have inner := inside.listsMore_append 1 (fun zero => by omega) (')' :: y)
    exact .group inside (ihy (by simpa [listsMore, inner] using one) any)

namespace ReplacesCalls

variable {R : Shorthand → Text → Text → Prop} {before : Option Char} {s s' : Text} {n : Nat}

/-- **The semicolons that stand alone** are those that did before. -/
theorem listsMore_eq (h : ReplacesCalls R before s s' n) (depth : Nat) :
    listsMore depth s' = listsMore depth s := by
  induction h generalizing depth with
  | nil => rfl
  | keep c _ ih => simp only [listsMore, ih]
  | @swap _ k _ front body _ s _ _ _ isFront grouped content _ _ ih =>
    have call := isFront.grouped k.shorthandName grouped
    have whole : front ++ '(' :: (body ++ ')' :: s) = front ++ '(' :: (body ++ [')']) ++ s := by simp
    rw [whole, call.listsMore_append _ (fun _ _ => id),
      content.grouped.listsMore_append _ (fun _ _ => id), ih]

/-! ## 5. Heads -/

/-- What stands between calls is kept up to the parenthesis of a head. -/
theorem behind_blanks {bs inside : Text} (blank : ∀ b ∈ bs, isBlank b = true)
    (h : ReplacesCalls R before (bs ++ '(' :: inside) s' n) :
    ∃ t, s' = bs ++ '(' :: t ∧ ReplacesCalls R (some '(') inside t n := by
  induction bs generalizing before s' with
  | nil =>
    rcases h.cons_cases with ⟨t, rfl, more⟩ | ⟨-, letter⟩
    · exact ⟨t, rfl, more⟩
    · exact absurd letter (by decide)
  | cons b bs ih =>
    obtain ⟨first, others⟩ := List.forall_mem_cons.mp blank
    rcases h.cons_cases with ⟨t, rfl, more⟩ | ⟨-, letter⟩
    · obtain ⟨t, rfl, inner⟩ := ih others more
      exact ⟨t, rfl, inner⟩
    · exact absurd letter (not_mem_latinLetters_of_isBlank first)

theorem behind_letters {letters rest : Text} (all : ∀ c ∈ letters, c ∈ latinLetters)
    (inside : inWord before = true) (h : ReplacesCalls R before (letters ++ rest) s' n) :
    ∃ b t, s' = letters ++ t ∧ ReplacesCalls R b rest t n := by
  induction letters generalizing before s' with
  | nil => exact ⟨before, s', rfl, h⟩
  | cons c letters ih =>
    obtain ⟨first, others⟩ := List.forall_mem_cons.mp all
    rcases h.cons_cases with ⟨t, rfl, more⟩ | ⟨outside, -⟩
    · have word : inWord (some c) = true := isNameChar_of_mem_latinLetters first
      obtain ⟨b, t, rfl, inner⟩ := ih others word more
      exact ⟨b, t, rfl, inner⟩
    · rw [outside] at inside
      cases inside

/-- **A head stays a head** if its first character is kept. -/
theorem behind_front {name word front inside : Text} {c : Char} (sn : ShorthandName name)
    (isFront : IsFront name word front) (cut : c :: s = front ++ '(' :: inside)
    (h : ReplacesCalls R (some c) s s' n) :
    ∃ t, c :: s' = front ++ '(' :: t ∧ ReplacesCalls R (some '(') inside t n := by
  obtain ⟨d, front, rfl⟩ := List.exists_cons_of_ne_nil (isFront.ne_nil sn.ne_nil)
  obtain ⟨rfl, rfl⟩ := List.cons.inj cut
  obtain ⟨letters, bs, rfl, first, others, blank⟩ := isFront.uncons sn
  rw [List.append_eq, List.append_assoc] at h
  have inside : inWord (some c) = true := isNameChar_of_mem_latinLetters first
  obtain ⟨b, t, rfl, behind⟩ := h.behind_letters others inside
  obtain ⟨t, rfl, inner⟩ := behind.behind_blanks blank
  exact ⟨t, by simp, inner⟩

/-- **What is written in front of a parenthesis** was there before, unless the parenthesis is that of
a content. -/
theorem exists_front {u v : Text} (h : ReplacesCalls R before s s' n) (cut : s' = u ++ '(' :: v)
    (plain : ∀ c ∈ u, c ∈ latinLetters ∨ isBlank c = true) :
    (∃ t, s = u ++ '(' :: t ∧ ReplacesCalls R (some '(') t v n) ∨
      ∃ m t, v = m ++ ')' :: t ∧ Grouped (· ≠ ';') m := by
  induction h generalizing u with
  | nil => simp at cut
  | @keep before c s s' n more ih =>
    cases u with
    | nil =>
      obtain ⟨rfl, rfl⟩ := List.cons.inj cut
      exact .inl ⟨s, rfl, more⟩
    | cons d u =>
      obtain ⟨rfl, behind⟩ := List.cons.inj cut
      refine (ih behind (List.forall_mem_cons.mp plain).2).imp_left ?_
      rintro ⟨t, rfl, inner⟩
      exact ⟨t, rfl, inner⟩
  | @swap before k word front body y s s' n _ _ _ content _ _ _ =>
    rcases content with ⟨nonempty, others⟩ | ⟨m, rfl, grouped⟩
    · obtain ⟨d, y, rfl⟩ := List.exists_cons_of_ne_nil nonempty
      obtain ⟨⟨letter, blank⟩, -, paren, -⟩ := others d List.mem_cons_self
      cases u with
      | nil => exact absurd (List.cons.inj cut).1 paren
      | cons e u =>
        obtain ⟨rfl, -⟩ := List.cons.inj cut
        exact absurd (plain d List.mem_cons_self) (by simp [letter, blank])
    · cases u with
      | nil =>
        obtain ⟨-, rfl⟩ := List.cons.inj cut
        exact .inr ⟨m, s', by simp, grouped⟩
      | cons e u =>
        obtain ⟨rfl, -⟩ := List.cons.inj cut
        exact absurd (plain '(' List.mem_cons_self) (by decide)

/-- A name begins in both texts or in neither. -/
theorem isSome_dropSame? {name : Text} (capitals : ∀ w ∈ name, w ∈ latinCapitals)
    (inside : inWord before = true) (h : ReplacesCalls R before s s' n) :
    (dropSame? name s').isSome = (dropSame? name s).isSome := by
  induction name generalizing before s s' with
  | nil => rfl
  | cons w name ih =>
    obtain ⟨first, others⟩ := List.forall_mem_cons.mp capitals
    cases h with
    | nil => rfl
    | keep c more =>
      rw [dropSame?, dropSame?]
      split
      · rename_i same
        have letter : inWord (some c) = true :=
          isNameChar_of_mem_latinLetters (mem_latinLetters_of_sameLetter first same)
        exact ih others letter more
      · rfl
    | swap outside =>
      rw [outside] at inside
      cases inside

end ReplacesCalls

/-! ## 6. Searches -/

/-- Does every find take a call, from the start of a word to the parenthesis that closes it, and put
a content there that is related to it? -/
def Finder.Takes (R : Shorthand → Text → Text → Prop) (find : Finder Text) : Prop :=
  ∀ before c cs f, find before c cs = some f → inWord before = false ∧
    ∃ (k : Shorthand) (word front body rest : Text), IsFront k.name.toList word front ∧
      c :: cs = front ++ '(' :: (body ++ ')' :: rest) ∧ Grouped (fun _ => True) body ∧
      IsContent f.content ∧ R k body f.content ∧ f.more = front.length + body.length + 1

/-- **A search for calls replaces them.** -/
theorem Finder.Takes.replaces {R : Shorthand → Text → Text → Prop} {find : Finder Text}
    (h : find.Takes R) (before : Option Char) (s : Text) :
    ReplacesCalls R before s (find.outcome before s).1 (find.outcome before s).2 := by
  induction size : s.length using Nat.strong_induction_on generalizing s before with
  | _ n ih =>
  subst size
  cases s with
  | nil => exact .nil before
  | cons c cs =>
    cases found : find before c cs with
    | none =>
      rw [Finder.outcome_of_none found]
      exact .keep c (ih _ (Nat.lt_succ_self _) _ _ rfl)
    | some f =>
      obtain ⟨more, y⟩ := f
      obtain ⟨outside, k, word, front, body, rest, isFront, whole, grouped, content, related, size⟩ :=
        h _ _ _ _ found
      obtain ⟨d, front, rfl⟩ := List.exists_cons_of_ne_nil (isFront.ne_nil k.shorthandName.ne_nil)
      obtain ⟨rfl, rfl⟩ := List.cons.inj whole
      have call : front ++ '(' :: (body ++ ')' :: rest) = front ++ '(' :: (body ++ [')']) ++ rest := by
        simp
      have length : more = (front ++ '(' :: (body ++ [')'])).length := by
        simp only [List.length_append, List.length_cons, List.length_nil] at size ⊢
        omega
      have last : lastOr before (c :: (front ++ '(' :: (body ++ [')']))) = some ')' := by
        rw [← List.cons_append, ← List.cons_append, ← List.append_assoc, lastOr_concat]
      change find before c (front ++ '(' :: (body ++ ')' :: rest)) = _ at found
      rw [call, length] at found
      change ReplacesCalls R before (c :: (front ++ '(' :: (body ++ ')' :: rest)))
        (find.outcome before (c :: (front ++ '(' :: (body ++ ')' :: rest)))).1
        (find.outcome before (c :: (front ++ '(' :: (body ++ ')' :: rest)))).2
      rw [call, Finder.outcome_of_found found, last, ← call]
      have shorter : rest.length < (c :: front ++ '(' :: (body ++ ')' :: rest)).length := by
        simp only [List.length_append, List.length_cons]
        omega
      exact .swap outside isFront grouped content related (ih _ shorter _ _ rfl)

section Calls

variable {R : Shorthand → Text → Text → Prop} {k : Shorthand}

/-- Calls are replaced by what their rule makes of the arguments. -/
theorem takes_spellableCalls {spell : List Text → Option Text}
    (spells : ∀ body y, Grouped (fun _ => True) body → spell (semicolonArguments body) = some y →
      IsContent y ∧ R k body y) : (spellableCalls k.name.toList spell).Takes R := by
  intro before c cs f found
  obtain ⟨outside, word, front, body, rest, y, isFront, whole, grouped, spelled, rfl⟩ :=
    (spellableCalls_eq_some_iff k.shorthandName).mp found
  obtain ⟨content, related⟩ := spells body y grouped spelled
  exact ⟨outside, k, word, front, body, rest, isFront, whole, grouped, content, related,
    Nat.add_right_comm _ _ _⟩

/-- Empty calls are replaced by a fact. -/
theorem takes_emptyCalls {digits : Text} (content : IsContent digits)
    (related : ∀ blanks, R k blanks digits) : Finder.Takes R fun before c cs =>
      (emptyCalls k.name.toList before c cs).map fun f => ⟨f.more, digits⟩ := by
  simp only [emptyCalls_eq_spellableCalls k.shorthandName]
  refine takes_spellableCalls fun body y _ spelled => ?_
  obtain ⟨-, rfl⟩ := Shorthand.spellFact_eq_some_iff.mp spelled
  exact ⟨content, related body⟩

end Calls

end Haulage
