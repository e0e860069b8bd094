/-
# What calls are spelled out as, side by side

A shorthand is spelled out with the arguments of its call, so two calls side by side are spelled out
as two texts side by side.  An argument is `Loose`: wherever it is put, as long as no name in it can
run into what follows, its calls list literal figures.  Loose twins are put together with operators
between them (`Loose.glue`), and what is put between parentheses may stand in place of a call
(`Content.parens`).

So every rule gives a content (`SpellsAlike`), the two rules with figures if those are the same.
-/
import Haulage.Proofs.Number.Written
import Haulage.Proofs.Shorthand.Figure

namespace Haulage

namespace Twin

/-! ## 1. Loose twins -/

/-- May the twin be put anywhere between operators and parentheses? -/
structure Loose (x : Twin) : Prop where
  alike : Alike x
  grouped : Grouped (· ≠ ';') (left x)
  literal : ∀ before rest, Follows (left rest) → Literal before x rest

/-- In front of a text that follows a formula, a head stands as a whole. -/
theorem exists_of_follows {name word : Text} (sn : ShorthandName name) {x rest front inside : Twin}
    {p : Cell} (follows : Follows (left rest)) (isFront : IsFront name word (left front))
    (opens : p.1 = '(') (whole : x ++ rest = front ++ p :: inside) :
    ∃ t, x = front ++ p :: t ∧ inside = t ++ rest := by
  have opening {bs : Text} (blank : ∀ b ∈ bs, isBlank b = true) :
      left rest ≠ bs ++ '(' :: left inside := by
    intro open'
    have shut := follows.shut
    rw [open', shut_append_blanks blank] at shut
    exact absurd ((openingLength?_eq_some_iff.mpr
      ⟨[], left inside, rfl, List.forall_mem_nil _, rfl⟩).symm.trans shut) nofun
  rcases List.append_eq_append_iff.mp whole with ⟨a, rfl, behind⟩ | ⟨a, rfl, behind⟩
  · exfalso
    obtain ⟨bs, cut, blank⟩ := isFront.blanks
    have behind' : left rest = left a ++ '(' :: left inside := by
      rw [behind, left_append, left_cons, opens]
    rw [left_append] at cut
    rcases List.append_eq_append_iff.mp cut with ⟨b, named, tail⟩ | ⟨b, -, rfl⟩
    · cases b with
      | nil =>
        rw [tail] at behind'
        exact opening blank behind'
      | cons e b =>
        have stop := follows.stop
        have letter : isNameChar e = true := isNameChar_of_mem_latinLetters
          (mem_latinLetters_of_named sn isFront.named e (by simp [named]))
        rw [behind', tail] at stop
        simp [letter] at stop
    · exact opening (fun d mem => blank d (List.mem_append_right b mem)) behind'
  · cases a with
    | nil =>
      have behind' : left rest = [] ++ '(' :: left inside := by
        rw [← List.nil_append rest, ← behind, left_cons, opens]
        rfl
      exact absurd behind' (opening (List.forall_mem_nil _))
    | cons q a =>
      obtain ⟨rfl, rfl⟩ := List.cons.inj behind
      exact ⟨a, rfl, rfl⟩

/-- **An argument may be put elsewhere**: what stands in it is closed in it. -/
theorem Literal.move {before₀ : Option Char} {x rest₀ : Twin} (literal : Literal before₀ x rest₀)
    (outside : inWord before₀ = false) {p : Char → Prop} (grouped : Grouped p (left x))
    (before : Option Char) {rest : Twin} (follows : Follows (left rest)) : Literal before x rest := by
  suffices all : ∀ (u v : Twin) (b₀ b : Option Char), x = u ++ v → Literal b₀ v rest₀ →
      (inWord b = false → inWord b₀ = false) → Literal b v rest from
    all [] x before₀ before rfl literal fun _ => outside
  intro u v
  induction v generalizing u with
  | nil => exact fun _ _ _ _ _ => trivial
  | cons c v ih =>
    intro b₀ b whole literal same
    refine ⟨fun k figures h found => ?_,
      ih (u ++ [c]) (some c.1) (some c.1) (by simp [whole]) literal.2 id⟩
    have sn := k.shorthandName
    obtain ⟨outside, word, front, o, inside, head, opens, isFront, rfl⟩ :=
      (headNamed_left_iff sn).mp found
    obtain ⟨t, cut, rfl⟩ := exists_of_follows sn (x := c :: v) follows isFront opens head
    rw [whole, cut, left_append, left_append, left_cons, opens, ← List.append_assoc] at grouped
    obtain ⟨m, w, closed, inner⟩ := grouped.exists_close
    obtain ⟨zm, zr, rfl, rfl, closed'⟩ := exists_of_left_eq_append closed
    obtain ⟨q, zw, rfl, closes, rfl⟩ := exists_of_left_eq_cons closed'
    have behind (r : Twin) : c :: (v ++ r) = front ++ o :: (zm ++ q :: (zw ++ r)) := by
      rw [← List.cons_append, cut]
      simp
    have there := literal.1 k figures _ ((headNamed_left_iff sn).mpr
      ⟨same outside, word, front, o, _, behind rest₀, opens, isFront, rfl⟩)
    rw [(drop_head (behind _)).1] at there ⊢
    exact there.exchange closes inner

variable {x y m : Twin}

/-- A text without parentheses and semicolons is loose beside another. -/
theorem Loose.of_plain (alike : Alike x) (plain : ∀ c ∈ left x, c ≠ ';' ∧ c ≠ '(' ∧ c ≠ ')') :
    Loose x := by
  have none : '(' ∉ left x ++ left [] := by
    intro mem
    rw [left_nil, List.append_nil] at mem
    exact (plain _ mem).2.1 rfl
  have literal : Literal Option.none x [] := literal_of_quiet fun _ => quiet_of_no_paren none
  exact ⟨alike, .of_forall plain, fun before _ follows =>
    literal.move rfl (.of_forall (p := fun _ => True) fun c mem => ⟨trivial, (plain c mem).2⟩) before
      follows⟩

theorem Loose.same {s : Text} (plain : ∀ c ∈ s, c ≠ ';' ∧ c ≠ '(' ∧ c ≠ ')') : Loose (same s) :=
  .of_plain (alike_same s) (by rwa [left_same])

/-! ## 2. Putting twins together -/

/-- An operator with blanks around it. -/
def IsJoint (s : Text) : Prop := ∃ d more, s = ' ' :: d :: more ∧ isBlank d = false ∧
  ∀ c ∈ d :: more, c ∉ latinLetters ∧ c ≠ ';' ∧ c ≠ '(' ∧ c ≠ ')'

theorem IsJoint.plain {s : Text} (joint : IsJoint s) :
    ∀ c ∈ s, c ∉ latinLetters ∧ c ≠ ';' ∧ c ≠ '(' ∧ c ≠ ')' := by
  obtain ⟨d, more, rfl, -, others⟩ := joint
  exact List.forall_mem_cons.mpr ⟨by decide, others⟩

theorem IsJoint.follows {s : Text} (joint : IsJoint s) (rest : Text) : Follows (s ++ rest) := by
  obtain ⟨d, more, rfl, blank, others⟩ := joint
  refine ⟨(by decide : isNameChar ' ' = false), ?_⟩
  have space : ∀ b ∈ [' '], isBlank b = true := by decide
  exact (shut_append_blanks space).mpr (shut_cons blank (others d List.mem_cons_self).2.2.1 _)

/-- **Two loose twins with an operator between them.** -/
theorem Loose.glue {s : Text} (joint : IsJoint s) (hx : Loose x) (hy : Loose y) :
    Loose (x ++ (Twin.same s ++ y)) := by
  have plain := joint.plain
  refine ⟨alike_append.mpr ⟨hx.alike, alike_append.mpr ⟨alike_same s, hy.alike⟩⟩, ?_, ?_⟩
  · rw [left_append, left_append, left_same]
    exact hx.grouped.append ((Grouped.of_forall fun c mem => (plain c mem).2).append hy.grouped)
  · intro before rest follows
    rw [literal_append, literal_append]
    refine ⟨hx.literal _ _ ?_, literal_of_quiet fun k => ?_, hy.literal _ _ follows⟩
    · rw [List.append_assoc, left_append, left_same]
      exact joint.follows _
    · exact quiet_of_no_letters k.shorthandName fun c mem => (plain c (left_same s ▸ mem)).1

/-- A twin between parentheses. -/
def parens (m : Twin) : Twin := ('(', '(') :: (m ++ [(')', ')')])

@[simp] theorem left_parens (m : Twin) : left (parens m) = '(' :: (left m ++ [')']) := by
  simp [parens]

@[simp] theorem right_parens (m : Twin) : right (parens m) = '(' :: (right m ++ [')']) := by
  simp [parens]

/-- **What is put between parentheses** may stand in place of a call. -/
theorem Content.parens (h : Loose m) : Content (parens m) := by
  refine ⟨?_, .inr ⟨_, m, _, rfl, rfl, rfl, h.grouped⟩, fun before rest => ?_⟩
  · rw [Twin.parens, alike_cons, alike_append]
    exact ⟨.inl rfl, h.alike, alike_same [')']⟩
  · have quiet {before : Option Char} {d : Char} (other : d ∉ latinLetters) {rest : Twin} :
        Literal before [(d, d)] rest := literal_of_quiet fun k =>
      quiet_of_no_letters k.shorthandName (List.forall_mem_singleton.mpr other)
    refine literal_append (x := [('(', '(')]).mpr ⟨quiet (by decide), ?_⟩
    exact literal_append.mpr ⟨h.literal _ _ (.cons (by decide) (by decide) (by decide) _),
      quiet (by decide)⟩

theorem Content.loose (h : Content y) : Loose y := ⟨h.alike, h.grouped, fun before rest _ =>
  h.literal before rest⟩

/-- Digits side by side may stand in place of a call. -/
theorem Content.of_digits (nonempty : y ≠ []) (first : Digits (left y)) (second : Digits (right y)) :
    Content y := by
  refine ⟨fun c mem => .inr ⟨first _ (List.mem_map_of_mem mem), second _ (List.mem_map_of_mem mem)⟩,
    .inl ⟨nonempty, first⟩, fun before rest => literal_of_quiet fun k => ?_⟩
  refine quiet_of_no_letters k.shorthandName fun c mem letter => ?_
  have digit := first c mem
  simp [isDigit_of_mem_latinLetters letter] at digit

/-- A call of the rounding of the formula language. -/
theorem Loose.round (h : Loose m) : Loose (Twin.same "round".toList ++ Twin.parens m) := by
  have content := Content.parens h
  refine ⟨alike_append.mpr ⟨alike_same _, content.alike⟩, ?_, fun before rest _ => ?_⟩
  · rw [left_append, left_same]
    exact (Grouped.of_forall (by decide)).append content.grouped
  · refine literal_append.mpr ⟨literal_of_quiet fun k => ?_, content.literal _ _⟩
    rw [left_same]
    refine quiet_of_word k.shorthandName (by decide) rfl fun named => ?_
    exact absurd named (by cases k <;> decide)

/-! ## 3. What numbers are written with -/

end Twin

/-- May a number be written with the character? -/
def IsFigure (c : Char) : Prop := c.isDigit = true ∨ c ∈ ".e+-infa".toList

theorem IsFigure.plain {c : Char} (h : IsFigure c) : c ≠ ';' ∧ c ≠ '(' ∧ c ≠ ')' := by
  refine ⟨?_, ?_, ?_⟩ <;>
  · rintro rfl
    exact absurd h (by unfold IsFigure; decide)

theorem mem_integerText {n : Int} {c : Char} (mem : c ∈ integerText n) :
    c = '-' ∨ c.isDigit = true := by
  rw [integerText] at mem
  split at mem
  · exact (List.mem_cons.mp mem).imp_right (Digits.digitsOf _ c)
  · exact .inr (Digits.digitsOf _ c mem)

theorem isFigure_of_mem_integerText (n : Int) : ∀ c ∈ integerText n, IsFigure c := by
  intro c mem
  rcases mem_integerText mem with rfl | digit
  · exact .inr (by decide)
  · exact .inl digit

theorem isFigure_of_mem_floatText (x : Float) : ∀ c ∈ floatText x, IsFigure c := by
  have marks {s : Text} (all : ∀ c ∈ s, c ∈ ".e+-infa".toList) : ∀ c ∈ s, IsFigure c :=
    fun c mem => .inr (all c mem)
  have size : ∀ c ∈ (if x.isInf then "inf".toList else floatNotation.write (shortest x)),
      IsFigure c := by
    split
    · exact marks (by decide)
    · obtain ⟨n, text, -⟩ := exists_numeral_write (shortest x)
      rw [text]
      intro c mem
      refine (n.mem_text mem).imp_right fun mark => ?_
      revert mark
      clear mem
      revert c
      decide
  unfold floatText
  split
  · exact marks (by decide)
  · dsimp only
    split
    · exact List.forall_mem_cons.mpr ⟨.inr (by decide), size⟩
    · exact size

/-- **What numbers are written with.** -/
theorem isFigure_of_mem_text (n : Number) : ∀ c ∈ n.text, IsFigure c := by
  cases n with
  | int n => exact isFigure_of_mem_integerText n
  | float x =>
    change ∀ c ∈ numberText x, _
    unfold numberText
    split
    · split
      · exact isFigure_of_mem_integerText _
      · exact isFigure_of_mem_floatText x
    · exact isFigure_of_mem_floatText x

/-- A number is written without parentheses. -/
theorem plain_text (n : Number) : ∀ c ∈ n.text, c ≠ ';' ∧ c ≠ '(' ∧ c ≠ ')' := fun c mem =>
  (isFigure_of_mem_text n c mem).plain

theorem Twin.Loose.digitsOf (n : Nat) : Twin.Loose (Twin.same (digitsOf n)) :=
  .same fun c mem => IsFigure.plain (.inl (Digits.digitsOf n c mem))

/-! ## 4. The rules side by side -/

open Twin (Content Loose left right same parens)

/-- Is there nothing on either side, or a content? -/
def SpelledAlike (a b : Option Text) : Prop :=
  a = none ∧ b = none ∨ ∃ y, Content y ∧ a = some (left y) ∧ b = some (right y)

/-- **The rule gives a content** for loose arguments, if figures are the same on either side. -/
def Shorthand.SpellsAlike (k : Shorthand) (spell : List Text → Option Text) : Prop :=
  ∀ xs : List Twin, (∀ x ∈ xs, Loose x) →
    (k ∈ Shorthand.withFigures → ∀ x ∈ xs.tail, right x = left x) →
      SpelledAlike (spell (xs.map left)) (spell (xs.map right))

namespace Shorthand

theorem isEmpty_left (x : Twin) : (left x).isEmpty = x.isEmpty := by cases x <;> rfl

theorem isEmpty_right (x : Twin) : (right x).isEmpty = x.isEmpty := by cases x <;> rfl

theorem spellsAlike_conditional : conditional.SpellsAlike spellConditional := by
  intro xs loose _
  match xs, loose with
  | [c, a, b], loose =>
    by_cases empty : c.isEmpty || a.isEmpty || b.isEmpty
    · left
      simp [spellConditional, isEmpty_left, isEmpty_right, empty]
    · right
      have choice : Loose (c ++ (same " ? ".toList ++ (a ++ (same " : ".toList ++ b)))) :=
        .glue ⟨'?', [' '], rfl, by decide, by decide⟩ (loose c (by simp))
          (.glue ⟨':', [' '], rfl, by decide, by decide⟩ (loose a (by simp)) (loose b (by simp)))
      refine ⟨_, .parens choice, ?_, ?_⟩ <;>
        simp [spellConditional, isEmpty_left, isEmpty_right, empty]
  | [], _ => exact .inl ⟨rfl, rfl⟩
  | [_], _ => exact .inl ⟨rfl, rfl⟩
  | [_, _], _ => exact .inl ⟨rfl, rfl⟩
  | _ :: _ :: _ :: _ :: _, _ => exact .inl ⟨rfl, rfl⟩

theorem spellsAlike_rounding : rounding.SpellsAlike spellRounding := by
  intro xs loose figures
  match xs, loose, figures with
  | [a, d], loose, figures =>
    have equal : right d = left d := figures (by decide) d (by simp)
    cases places : readPlaces? (left d) with
    | none =>
      left
      simp [spellRounding, equal, places]
    | some n =>
      by_cases empty : a.isEmpty
      · left
        simp [spellRounding, isEmpty_left, isEmpty_right, empty]
      · right
        have factor := Loose.digitsOf (Nat.pow 10 n)
        have product := Loose.glue ⟨'*', [' '], rfl, by decide, by decide⟩ (loose a (by simp)) factor
        have quotient := product.round.glue ⟨'/', [' '], rfl, by decide, by decide⟩ factor
        refine ⟨_, .parens quotient, ?_, ?_⟩ <;>
          simp [spellRounding, isEmpty_left, isEmpty_right, empty, equal, places]
  | [], _, _ => exact .inl ⟨rfl, rfl⟩
  | [_], _, _ => exact .inl ⟨rfl, rfl⟩
  | _ :: _ :: _ :: _, _, _ => exact .inl ⟨rfl, rfl⟩

/-- Twins one after the other with a plus between neighbours. -/
def sumTwin : List Twin → Twin
  | [] => []
  | [x] => x
  | x :: xs => x ++ (same " + ".toList ++ sumTwin xs)

theorem sides_sumTwin (xs : List Twin) :
    left (sumTwin xs) = Text.join " + ".toList (xs.map left) ∧
      right (sumTwin xs) = Text.join " + ".toList (xs.map right) := by
  fun_induction sumTwin xs with
  | case1 => exact ⟨rfl, rfl⟩
  | case2 => exact ⟨rfl, rfl⟩
  | case3 x xs more ih =>
    cases xs with
    | nil => exact absurd rfl more
    | cons y ys => simp [Text.join, ih.1, ih.2]

theorem loose_sumTwin {xs : List Twin} (loose : ∀ x ∈ xs, Loose x) : Loose (sumTwin xs) := by
  fun_induction sumTwin xs with
  | case1 => exact .same (s := []) (List.forall_mem_nil _)
  | case2 x => exact loose x (by simp)
  | case3 x xs _ ih =>
    obtain ⟨first, others⟩ := List.forall_mem_cons.mp loose
    exact .glue ⟨'+', [' '], rfl, by decide, by decide⟩ first (ih others)

theorem spellsAlike_average (most : Int) : average.SpellsAlike (spellAverage most) := by
  intro xs loose _
  have empty : (xs.map left).any List.isEmpty = (xs.map right).any List.isEmpty := by
    simp only [List.any_map, Function.comp_def, isEmpty_left, isEmpty_right]
  rw [spellAverage, spellAverage, List.length_map, List.length_map, empty]
  split
  · exact .inl ⟨rfl, rfl⟩
  · right
    have sum := (Content.parens (loose_sumTwin loose)).loose
    have quotient := sum.glue ⟨'/', [' '], rfl, by decide, by decide⟩ (.digitsOf xs.length)
    have sides := sides_sumTwin xs
    exact ⟨_, .parens quotient, by simp [sides.1], by simp [sides.2]⟩

/-- The choices between tiers side by side, the amounts being two. -/
def tierTwin (amount : Twin) (otherwise : Text) : List Tier → Twin
  | [] => same otherwise
  | t :: ts => parens (parens amount ++ (same " <= ".toList ++ (same t.threshold.text ++
      (same " ? ".toList ++ (same t.tariff.text ++
        (same " : ".toList ++ tierTwin amount otherwise ts))))))

theorem sides_tierTwin (amount : Twin) (otherwise : Text) (ts : List Tier) :
    left (tierTwin amount otherwise ts) = choicesOf (left amount) otherwise ts ∧
      right (tierTwin amount otherwise ts) = choicesOf (right amount) otherwise ts := by
  induction ts with
  | nil => simp [tierTwin, choicesOf]
  | cons t ts ih => simp [tierTwin, choicesOf, ih.1, ih.2]

theorem loose_tierTwin {amount : Twin} (loose : Loose amount) (otherwise : Number) :
    (ts : List Tier) → Loose (tierTwin amount otherwise.text ts) ∧
      (ts ≠ [] → Content (tierTwin amount otherwise.text ts))
  | [] => ⟨.same (plain_text otherwise), fun empty => absurd rfl empty⟩
  | t :: ts => by
    have content : Content (tierTwin amount otherwise.text (t :: ts)) :=
      .parens <| .glue ⟨'<', ['=', ' '], rfl, by decide, by decide⟩ (Content.parens loose).loose <|
        .glue ⟨'?', [' '], rfl, by decide, by decide⟩ (.same (plain_text t.threshold)) <|
        .glue ⟨':', [' '], rfl, by decide, by decide⟩ (.same (plain_text t.tariff))
          (loose_tierTwin loose otherwise ts).1
    exact ⟨content.loose, fun _ => content⟩

theorem spellsAlike_tieredRate (most : Int) : tieredRate.SpellsAlike (spellTieredRate most) := by
  intro xs loose figures
  cases xs with
  | nil => exact .inl ⟨rfl, rfl⟩
  | cons a ts =>
    have equal : ts.map right = ts.map left :=
      List.map_congr_left fun x mem => figures (by decide) x mem
    have amount := loose a List.mem_cons_self
    rw [List.map_cons, List.map_cons, equal, spellTieredRate, spellTieredRate, isEmpty_left,
      isEmpty_right]
    split
    · exact .inl ⟨rfl, rfl⟩
    · split
      · rename_i tiers _
        unfold tierChain
        dsimp only
        split
        · exact .inl ⟨rfl, rfl⟩
        · rename_i highest last
          right
          have sides := sides_tierTwin a highest.tariff.text (Tier.ordered tiers)
          refine ⟨_, (loose_tierTwin amount highest.tariff (Tier.ordered tiers)).2 fun empty => ?_,
            ?_, ?_⟩
          · simp [empty] at last
          · rw [sides.1]
            rfl
          · rw [sides.2]
            rfl
      · exact .inl ⟨rfl, rfl⟩

end Shorthand

end Haulage
