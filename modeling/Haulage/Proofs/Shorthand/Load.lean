/-
# The load of a text

Neither the length of a text nor the number of its calls goes down as it is spelled out: a tiered
rate writes its amount once for each tier, and parentheses that come to stand behind a name make a
new call of it.  What goes down is the **load**.  It counts the names of shorthands, whether a call
begins with them or not, so a call that comes about has been counted before; and what stands in a
tiered rate counts `factor` times, as often as it may be written.

A rate counts so only if it lists more than its amount.  Otherwise it stays as it is, which is why
the new call of `TARIFAESCALONADA (x)` weighs no more than the name did.

* `load_append` and `load_arguments`: the load of a text is that of its parts;
* `load_call`: what a call weighs, with its name;
* `Light`: contents that weigh no more than the arguments they are written with, and for each rule
  that it gives such contents;
* `ReplacesCalls.load_le`: replacing `n` calls takes `n` off the load.
-/
import Haulage.Proofs.Shorthand.Replacement
import Haulage.Proofs.Sorting

namespace Haulage

/-! ## 1. Loads -/

/-- Does the name of a shorthand begin here, whatever follows it? -/
def beginsName (before : Option Char) (c : Char) (cs : Text) : Bool :=
  !inWord before && Shorthand.all.any fun k => (dropSame? k.name.toList (c :: cs)).isSome

/-- The body of the tiered rate that begins here and what follows it, if it lists more than an
amount. -/
def tieredCall? (before : Option Char) (c : Char) (cs : Text) : Option (Text × Text) :=
  match headNamed Shorthand.tieredRate.name.toList before c cs with
  | none => none
  | some h =>
    let inside := (c :: cs).drop h.length
    match bodyOf? 0 inside with
    | none => none
    | some body => if listsMore 0 body then some (body, inside.drop (body.length + 1)) else none

/-- **A tiered rate** is a front and a grouped body that lists more than one argument. -/
theorem tieredCall?_eq_some_iff {before : Option Char} {c : Char} {cs body rest : Text} :
    tieredCall? before c cs = some (body, rest) ↔ inWord before = false ∧ ∃ word front,
      c :: cs = front ++ '(' :: (body ++ ')' :: rest) ∧
        IsFront Shorthand.tieredRate.name.toList word front ∧
        Grouped (fun _ => True) body ∧ listsMore 0 body = true := by
  have sn := Shorthand.tieredRate.shorthandName
  constructor
  · intro found
    unfold tieredCall? at found
    split at found
    · cases found
    · rename_i h head
      obtain ⟨outside, word, front, inside, whole, isFront, rfl⟩ := (headNamed_eq_some_iff sn).mp head
      have behind : (c :: cs).drop (front.length + 1) = inside := by simp [whole]
      dsimp only at found
      rw [behind] at found
      split at found
      · cases found
      · rename_i b closed
        obtain ⟨rest', rfl⟩ := exists_of_bodyOf? closed
        split at found
        · rename_i lists
          obtain ⟨rfl, rfl⟩ : b = body ∧ rest' = rest := by simpa using found
          exact ⟨outside, word, front, whole, isFront, grouped_of_bodyOf? closed, lists⟩
        · cases found
  · rintro ⟨outside, word, front, whole, isFront, grouped, lists⟩
    have head := (headNamed_eq_some_iff sn).mpr ⟨outside, word, front, _, whole, isFront, rfl⟩
    have behind : (c :: cs).drop (front.length + 1) = body ++ ')' :: rest := by simp [whole]
    simp [tieredCall?, head, behind, grouped.bodyOf?_eq_some, lists]

/-- The load of a text that stands behind a character. -/
def load (factor : Nat) (before : Option Char) : Text → Nat
  | [] => 0
  | c :: cs =>
    match call : tieredCall? before c cs with
    | some (body, rest) => 1 + factor * load factor (some '(') body + load factor (some ')') rest
    | none => (if beginsName before c cs then 1 else 0) + load factor (some c) cs
termination_by s => s.length
decreasing_by
  all_goals simp_wf
  · obtain ⟨-, word, front, whole, -, -, -⟩ := tieredCall?_eq_some_iff.mp call
    have := congrArg List.length whole
    simp only [List.length_cons, List.length_append] at this
    omega
  · obtain ⟨-, word, front, whole, -, -, -⟩ := tieredCall?_eq_some_iff.mp call
    have := congrArg List.length whole
    simp only [List.length_cons, List.length_append] at this
    omega

variable {factor : Nat} {before before' : Option Char} {c : Char} {cs x y rest : Text}

@[simp] theorem load_nil : load factor before [] = 0 := by rw [load]

theorem load_of_tiered {body : Text} (h : tieredCall? before c cs = some (body, rest)) :
    load factor before (c :: cs) =
      1 + factor * load factor (some '(') body + load factor (some ')') rest := by
  rw [load]
  split
  · rename_i found
    obtain ⟨rfl, rfl⟩ : _ = body ∧ _ = rest := by simpa [h] using found.symm
    rfl
  · rename_i none
    cases h.symm.trans none

theorem load_of_none (h : tieredCall? before c cs = none) : load factor before (c :: cs) =
    (if beginsName before c cs then 1 else 0) + load factor (some c) cs := by
  rw [load]
  split
  · rename_i found
    cases h.symm.trans found
  · rfl

/-! ## 2. Where no name begins -/

/-- A front begins with a name. -/
theorem beginsName_of_front {k : Shorthand} {word front : Text} (outside : inWord before = false)
    (isFront : IsFront k.name.toList word front) (whole : c :: cs = front ++ rest) :
    beginsName before c cs = true := by
  obtain ⟨bs, rfl, -⟩ := isFront.blanks
  rw [beginsName, outside, whole]
  simp only [Bool.not_false, Bool.true_and, List.any_eq_true]
  refine ⟨k, k.mem_all, ?_⟩
  rw [List.append_assoc, dropSame?_append isFront.named]
  rfl

theorem beginsName_of_tiered {r : Text × Text} (h : tieredCall? before c cs = some r) :
    beginsName before c cs = true := by
  obtain ⟨outside, word, front, whole, isFront, -⟩ := tieredCall?_eq_some_iff.mp h
  exact beginsName_of_front outside isFront whole

theorem load_of_not_beginsName (h : beginsName before c cs = false) :
    load factor before (c :: cs) = load factor (some c) cs := by
  have none : tieredCall? before c cs = none := by
    refine Option.eq_none_iff_forall_ne_some.mpr fun r found => ?_
    cases h.symm.trans (beginsName_of_tiered found)
  rw [load_of_none none, h]
  simp

theorem beginsName_of_inWord (h : inWord before = true) : beginsName before c cs = false := by
  simp [beginsName, h]

theorem beginsName_of_not_letter (h : c ∉ latinLetters) : beginsName before c cs = false := by
  rw [beginsName, Bool.and_eq_false_iff]
  right
  refine List.any_eq_false.mpr fun k _ => ?_
  simp [dropSame?_of_not_letter k.shorthandName h]

theorem load_append_of_no_letters (others : ∀ d ∈ x, d ∉ latinLetters) :
    load factor before (x ++ y) = load factor (lastOr before x) y := by
  induction x generalizing before with
  | nil => rfl
  | cons d x ih =>
    obtain ⟨first, rest⟩ := List.forall_mem_cons.mp others
    rw [List.cons_append, load_of_not_beginsName (beginsName_of_not_letter first), ih rest, lastOr_cons]

theorem load_append_of_inWord (word : ∀ d ∈ x, isNameChar d = true) (inside : inWord before = true) :
    load factor before (x ++ y) = load factor (lastOr before x) y := by
  induction x generalizing before with
  | nil => rfl
  | cons d x ih =>
    obtain ⟨first, others⟩ := List.forall_mem_cons.mp word
    have inside' : inWord (some d) = true := first
    rw [List.cons_append, load_of_not_beginsName (beginsName_of_inWord inside), ih others inside',
      lastOr_cons]

theorem load_cons_of_not_letter (h : c ∉ latinLetters) :
    load factor before (c :: cs) = load factor (some c) cs :=
  load_of_not_beginsName (beginsName_of_not_letter h)

theorem exists_mem_of_named {name word : Text} (named : Named name word) :
    ∀ w ∈ name, ∃ c ∈ word, sameLetter w c = true := by
  unfold Named at named
  induction name generalizing word with
  | nil => exact List.forall_mem_nil _
  | cons w name ih =>
    cases word with
    | nil => simp [dropSame?] at named
    | cons c word =>
      rw [dropSame?] at named
      split at named
      · rename_i same
        refine List.forall_mem_cons.mpr ⟨⟨c, List.mem_cons_self, same⟩, fun w' mem => ?_⟩
        obtain ⟨d, there, same'⟩ := ih named w' mem
        exact ⟨d, List.mem_cons_of_mem c there, same'⟩
      · cases named

/-- Every name has a letter that numbers are not written with. -/
theorem exists_letter_no_figure (k : Shorthand) :
    ∃ w ∈ k.name.toList, ∀ c ∈ ".e+-infa".toList, sameLetter w c = false := by
  cases k with
  | conditional => exact ⟨'S', by decide, by decide⟩
  | rounding => exact ⟨'R', by decide, by decide⟩
  | average => exact ⟨'P', by decide, by decide⟩
  | weekday => exact ⟨'D', by decide, by decide⟩
  | month => exact ⟨'M', by decide, by decide⟩
  | quarter => exact ⟨'T', by decide, by decide⟩
  | weekend => exact ⟨'S', by decide, by decide⟩
  | tieredRate => exact ⟨'T', by decide, by decide⟩

theorem isSome_dropSame?_append {name : Text} (capitals : ∀ w ∈ name, w ∈ latinCapitals)
    (stop : inWord rest.head? = false) :
    (dropSame? name (x ++ rest)).isSome = (dropSame? name x).isSome := by
  induction name generalizing x with
  | nil => rfl
  | cons w name ih =>
    obtain ⟨first, others⟩ := List.forall_mem_cons.mp capitals
    cases x with
    | nil =>
      cases rest with
      | nil => rfl
      | cons d rest =>
        rw [List.nil_append, dropSame?, dropSame?, if_neg fun same => ?_]
        rw [List.head?_cons, inWord_some, isNameChar_of_mem_latinLetters
          (mem_latinLetters_of_sameLetter first same)] at stop
        cases stop
    | cons c x =>
      rw [List.cons_append, dropSame?, dropSame?]
      split
      · exact ih others
      · rfl

/-- Names do not go on behind a text that a word stops in front of. -/
theorem beginsName_append (stop : inWord rest.head? = false) :
    beginsName before c (cs ++ rest) = beginsName before c cs := by
  simp only [beginsName, ← List.cons_append,
    isSome_dropSame?_append (Shorthand.shorthandName _).capitals stop]

theorem beginsName_of_figures (figures : ∀ d ∈ c :: cs, IsFigure d)
    (stop : inWord rest.head? = false) : beginsName before c (cs ++ rest) = false := by
  rw [beginsName_append stop, beginsName, Bool.and_eq_false_iff]
  right
  refine List.any_eq_false.mpr fun k _ begins => ?_
  obtain ⟨r, found⟩ := Option.isSome_iff_exists.mp begins
  obtain ⟨word, whole, named⟩ := exists_of_dropSame? found
  obtain ⟨w, mem, other⟩ := exists_letter_no_figure k
  obtain ⟨d, inside, same⟩ := exists_mem_of_named named w mem
  rcases figures d (whole ▸ List.mem_append_left r inside) with digit | mark
  · have letter := mem_latinLetters_of_named k.shorthandName named d inside
    simp [isDigit_of_mem_latinLetters letter] at digit
  · simp [other d mark] at same

/-- Only whether a word goes on counts of what stands in front. -/
theorem load_congr (same : inWord before' = inWord before) (s : Text) :
    load factor before' s = load factor before s := by
  cases s with
  | nil => simp
  | cons c cs =>
    have head : tieredCall? before' c cs = tieredCall? before c cs := by
      unfold tieredCall? headNamed isBoundary
      rw [same]
    have name : beginsName before' c cs = beginsName before c cs := by simp only [beginsName, same]
    cases found : tieredCall? before c cs with
    | some r => rw [load_of_tiered found, load_of_tiered (head.trans found)]
    | none => rw [load_of_none found, load_of_none (head.trans found), name]

theorem load_of_outside (outside : inWord before = false) (s : Text) :
    load factor before s = load factor none s :=
  load_congr outside s

/-- Behind a text that a word stops in front of, it does not matter what stood there. -/
theorem load_of_stop (stop : inWord rest.head? = false) (before before' : Option Char) :
    load factor before' rest = load factor before rest := by
  cases rest with
  | nil => simp
  | cons c cs =>
    have other : c ∉ latinLetters := fun letter => by
      rw [List.head?_cons, inWord_some, isNameChar_of_mem_latinLetters letter] at stop
      cases stop
    rw [load_cons_of_not_letter other, load_cons_of_not_letter other]

/-- Behind a letter the rest of a front weighs nothing. -/
theorem load_behind_front {k : Shorthand} {word front : Text} {d : Char}
    (isFront : IsFront k.name.toList word (d :: front)) (inside : Text) :
    load factor (some d) (front ++ '(' :: inside) = load factor (some '(') inside := by
  obtain ⟨letters, bs, rfl, first, others, blank⟩ := isFront.uncons k.shorthandName
  have inside : inWord (some d) = true := isNameChar_of_mem_latinLetters first
  rw [List.append_assoc, load_append_of_inWord
    (fun b mem => isNameChar_of_mem_latinLetters (others b mem)) inside,
    load_append_of_no_letters fun b mem => not_mem_latinLetters_of_isBlank (blank b mem),
    load_cons_of_not_letter (by decide)]

/-! ## 3. The load of a text is that of its parts -/

/-- In front of a text that follows a formula, a head stands as a whole. -/
theorem exists_of_follows {name word front inside : Text} (sn : ShorthandName name)
    (follows : Follows rest) (isFront : IsFront name word front)
    (whole : x ++ rest = front ++ '(' :: inside) :
    ∃ t, x = front ++ '(' :: t ∧ inside = t ++ rest := by
  have twin : Twin.same x ++ Twin.same rest = Twin.same front ++ ('(', '(') :: Twin.same inside := by
    simpa [Twin.same] using congrArg Twin.same whole
  obtain ⟨t, cut, behind⟩ := Twin.exists_of_follows sn (by rwa [Twin.left_same])
    (by rwa [Twin.left_same]) rfl twin
  refine ⟨Twin.left t, ?_, ?_⟩
  · simpa using congrArg Twin.left cut
  · simpa using congrArg Twin.left behind

/-- A closed call that begins in a grouped text stands in it. -/
theorem Grouped.exists_call {p : Char → Prop} {name word front body r : Text} (h : Grouped p x)
    (sn : ShorthandName name) (follows : Follows rest) (isFront : IsFront name word front)
    (grouped : Grouped (fun _ => True) body) (whole : x ++ rest = front ++ '(' :: (body ++ ')' :: r)) :
    ∃ t, x = front ++ '(' :: (body ++ ')' :: t) ∧ r = t ++ rest ∧ Grouped p t := by
  obtain ⟨t, rfl, behind⟩ := exists_of_follows sn follows isFront whole
  have opened := h.of_plain_append fun d mem => (isFront.plain sn d mem).2
  generalize cut : '(' :: t = s at opened
  cases opened with
  | nil => cases cut
  | plain _ notOpen => exact absurd (List.cons.inj cut).1.symm notOpen
  | @group _ m w inside more =>
    obtain ⟨-, rfl⟩ := List.cons.inj cut
    rw [List.append_assoc, List.cons_append] at behind
    obtain ⟨rfl, rfl⟩ := grouped.eq_of_closed inside behind
    exact ⟨w, rfl, rfl, more⟩

/-- A rate stays one with more text behind it. -/
theorem tieredCall?_append {c : Char} {cs body r : Text} {before : Option Char}
    (found : tieredCall? before c cs = some (body, r)) (rest : Text) :
    tieredCall? before c (cs ++ rest) = some (body, r ++ rest) := by
  obtain ⟨stands, word, front, whole, isFront, grouped, lists⟩ := tieredCall?_eq_some_iff.mp found
  refine tieredCall?_eq_some_iff.mpr ⟨stands, word, front, ?_, isFront, grouped, lists⟩
  rw [← List.cons_append, whole]
  simp

/-- A rate that begins in a grouped text stands in it. -/
theorem Grouped.exists_tieredCall? {p : Char → Prop} {c : Char} {cs body r : Text}
    {before : Option Char} (h : Grouped p (c :: cs)) (follows : Follows rest)
    (found : tieredCall? before c (cs ++ rest) = some (body, r)) :
    ∃ t, tieredCall? before c cs = some (body, t) ∧ r = t ++ rest ∧ Grouped p t ∧
      t.length < (c :: cs).length := by
  obtain ⟨stands, word, front, whole, isFront, grouped, lists⟩ := tieredCall?_eq_some_iff.mp found
  obtain ⟨t, cut, rfl, behind⟩ :=
    h.exists_call Shorthand.tieredRate.shorthandName follows isFront grouped whole
  refine ⟨t, ?_, rfl, behind, ?_⟩
  · exact tieredCall?_eq_some_iff.mpr ⟨stands, word, front, cut, isFront, grouped, lists⟩
  · rw [cut]
    simp
    omega

/-- **The load of a grouped text** and of what follows it. -/
theorem load_append {p : Char → Prop} (h : Grouped p x) (follows : Follows rest)
    (before : Option Char) :
    load factor before (x ++ rest) = load factor before x + load factor none rest := by
  induction size : x.length using Nat.strong_induction_on generalizing p x rest before with
  | _ n ih =>
  subst size
  cases h with
  | nil =>
    rw [List.nil_append, load_nil, Nat.zero_add]
    exact load_of_stop follows.stop _ _
  | @plain _ c cs outside notOpen notClose more =>
    cases found : tieredCall? before c (cs ++ rest) with
    | some r =>
      obtain ⟨body, r⟩ := r
      have all : Grouped p (c :: cs) := .plain outside notOpen notClose more
      obtain ⟨t, here, rfl, behind, shorter⟩ := all.exists_tieredCall? follows found
      rw [List.cons_append, load_of_tiered found, load_of_tiered here,
        ih t.length shorter behind follows _ rfl]
      omega
    | none =>
      have here : tieredCall? before c cs = none := by
        refine Option.eq_none_iff_forall_ne_some.mpr fun r found' => ?_
        rw [tieredCall?_append found' rest] at found
        cases found
      rw [List.cons_append, load_of_none found, load_of_none here, beginsName_append follows.stop,
        ih cs.length (Nat.lt_succ_self _) more follows _ rfl]
      omega
  | @group _ u v inside more =>
    have closes (t : Text) : Follows (')' :: t) :=
      .cons (by decide) (by decide) (by decide) _
    have one (t : Text) : load factor before ('(' :: (u ++ ')' :: t)) =
        load factor (some '(') u + load factor (some ')') t := by
      rw [load_cons_of_not_letter (by decide), ih u.length (by simp) inside (closes t) _ rfl,
        load_cons_of_not_letter (by decide)]
    rw [List.cons_append, List.append_assoc, List.cons_append, one, one,
      ih v.length (by simp; omega) more follows _ rfl]
    omega

/-- The load of a text between parentheses, and of what follows them. -/
theorem load_parens {p : Char → Prop} (h : Grouped p x) (before : Option Char) (rest : Text) :
    load factor before ('(' :: (x ++ ')' :: rest)) =
      load factor none x + load factor (some ')') rest := by
  rw [load_cons_of_not_letter (by decide), load_append h (.cons (by decide) (by decide) (by decide) _),
    load_cons_of_not_letter (by decide), load_of_outside (by decide)]

/-- The first character adds to the load. -/
theorem load_le_cons (positive : 0 < factor) :
    load factor (some c) cs ≤ load factor before (c :: cs) := by
  cases found : tieredCall? before c cs with
  | none =>
    rw [load_of_none found]
    exact Nat.le_add_left _ _
  | some r =>
    obtain ⟨body, r⟩ := r
    obtain ⟨-, word, front, whole, isFront, grouped, -⟩ := tieredCall?_eq_some_iff.mp found
    obtain ⟨d, front, rfl⟩ := List.exists_cons_of_ne_nil
      (isFront.ne_nil Shorthand.tieredRate.shorthandName.ne_nil)
    rw [List.cons_append] at whole
    obtain ⟨rfl, rfl⟩ := List.cons.inj whole
    have outside : inWord (some '(') = false := by decide
    have behind := @load_behind_front factor _ _ _ _ isFront (body ++ ')' :: r)
    have inner := @load_parens factor _ _ grouped (some '(') r
    rw [load_cons_of_not_letter (by decide)] at inner
    rw [load_of_tiered found, behind, inner, load_of_outside outside]
    have := Nat.le_mul_of_pos_left (load factor none body) positive
    omega

/-- A word that goes on takes from the load. -/
theorem load_le_of_inWord (positive : 0 < factor) (more : inWord before = true → inWord before' = true)
    (s : Text) : load factor before' s ≤ load factor before s := by
  cases s with
  | nil => simp
  | cons c cs =>
    cases inside : inWord before' with
    | false =>
      refine Nat.le_of_eq (load_congr ?_ _)
      cases inside' : inWord before with
      | false => exact inside
      | true =>
        rw [more inside'] at inside
        cases inside
    | true =>
      rw [load_of_not_beginsName (beginsName_of_inWord inside)]
      exact load_le_cons positive

theorem load_le_none (positive : 0 < factor) (before : Option Char) (s : Text) :
    load factor before s ≤ load factor none s :=
  load_le_of_inWord positive (fun inside => absurd inside (by decide)) s

/-! ## 4. The load of a call -/

/-- How often what stands in a call of the shorthand counts. -/
def Shorthand.multiplicity (factor : Nat) : Shorthand → Nat
  | tieredRate => factor
  | _ => 1

theorem Shorthand.multiplicity_le (positive : 0 < factor) (k : Shorthand) :
    k.multiplicity factor ≤ factor := by
  cases k <;> first | exact Nat.le_refl _ | exact positive

/-- The first parenthesis that opens stands in one place. -/
theorem eq_behind_paren {u v a b : Text} (hu : '(' ∉ u) (hv : '(' ∉ v)
    (whole : u ++ '(' :: a = v ++ '(' :: b) : a = b := by
  rcases List.append_eq_append_iff.mp whole with ⟨w, rfl, behind⟩ | ⟨w, rfl, behind⟩
  · cases w with
    | nil => exact (List.cons.inj behind).2
    | cons e w =>
      obtain ⟨rfl, -⟩ := List.cons.inj behind
      simp at hv
  · cases w with
    | nil => exact (List.cons.inj behind).2.symm
    | cons e w =>
      obtain ⟨rfl, -⟩ := List.cons.inj behind
      simp at hu

/-- **A call weighs** more than what stands in it. -/
theorem load_call (positive : 0 < factor) {k : Shorthand} {word front body : Text}
    (outside : inWord before = false) (isFront : IsFront k.name.toList word front)
    (grouped : Grouped (fun _ => True) body)
    (lists : k = .tieredRate → listsMore 0 body = true) (rest : Text) :
    1 + k.multiplicity factor * load factor none body + load factor (some ')') rest ≤
      load factor before (front ++ '(' :: (body ++ ')' :: rest)) := by
  have start : load factor (some '(') body = load factor none body := load_congr (by decide) _
  have opened := @load_parens factor _ _ grouped (some '(') rest
  rw [load_cons_of_not_letter (by decide)] at opened
  obtain ⟨c, front, rfl⟩ := List.exists_cons_of_ne_nil (isFront.ne_nil k.shorthandName.ne_nil)
  rw [List.cons_append]
  cases found : tieredCall? before c (front ++ '(' :: (body ++ ')' :: rest)) with
  | some r =>
    obtain ⟨b, r⟩ := r
    -- The body of a rate that begins here is that of the call.
    obtain ⟨-, word', front', whole, isFront', grouped', -⟩ := tieredCall?_eq_some_iff.mp found
    have apart {k : Shorthand} {word front : Text} (isFront : IsFront k.name.toList word front) :
        '(' ∉ front := fun mem => (isFront.plain k.shorthandName _ mem).2.1 rfl
    rw [← List.cons_append] at whole
    have behind := eq_behind_paren (apart isFront) (apart isFront') whole
    obtain ⟨rfl, rfl⟩ := grouped.eq_of_closed grouped' behind
    rw [load_of_tiered found, start]
    have := Nat.mul_le_mul_right (load factor none body) (k.multiplicity_le positive)
    omega
  | none =>
    have name : beginsName before c (front ++ '(' :: (body ++ ')' :: rest)) = true :=
      beginsName_of_front outside isFront List.cons_append.symm
    rw [load_of_none found, name, load_behind_front isFront, opened]
    have one : k.multiplicity factor = 1 := by
      cases k with
      | tieredRate =>
        cases found.symm.trans (tieredCall?_eq_some_iff.mpr
          ⟨outside, word, _, List.cons_append.symm, isFront, grouped, lists rfl⟩)
      | _ => rfl
    simp [one]
    omega

/-! ## 5. The load of arguments -/

/-- The blanks around an argument weigh nothing. -/
theorem load_strip {x : Twin} (h : Grouped (· ≠ ';') (Twin.left x)) :
    load factor none (Twin.left (Twin.strip x)) = load factor none (Twin.left x) := by
  obtain ⟨f, g, whole, front, back⟩ := Twin.exists_of_strip x
  have quiet {bs : Text} (blank : ∀ b ∈ bs, isBlank b = true) : ∀ b ∈ bs, b ∉ latinLetters :=
    fun b mem => not_mem_latinLetters_of_isBlank (blank b mem)
  have follows : Follows (Twin.left g) := by
    constructor
    · cases cut : Twin.left g with
      | nil => rfl
      | cons b bs => exact isNameChar_of_isBlank (back b (cut ▸ List.mem_cons_self))
    · have shut : Shut (Twin.left g ++ []) := (shut_append_blanks back).mpr rfl
      rwa [List.append_nil] at shut
  have behind : load factor none (Twin.left g) = 0 := by
    rw [← List.append_nil (Twin.left g), load_append_of_no_letters (quiet back), load_nil]
  have start : inWord (lastOr none (Twin.left f)) = inWord none :=
    (wordless_of_blanks front).inWord_lastOr rfl
  conv => rhs; rw [whole, Twin.left_append, Twin.left_append]
  rw [load_append_of_no_letters (quiet front), load_append (Twin.grouped_strip h) follows, behind,
    load_congr start, Nat.add_zero]

/-- **A body weighs what its arguments weigh.** -/
theorem load_arguments {body : Text} (h : Grouped (fun _ => True) body) :
    (∀ x ∈ semicolonArguments body, Grouped (· ≠ ';') x) ∧
      ((semicolonArguments body).map (load factor none)).sum = load factor none body := by
  have twin : Grouped (fun _ => True) (Twin.left (Twin.same body)) := by rwa [Twin.left_same]
  obtain ⟨x, xs, lists⟩ := Twin.exists_lists twin
  have arguments := (lists.semicolonArguments (Twin.alike_same body)).1
  rw [Twin.left_same] at arguments
  have parts {b : Twin} {xs : List Twin} (lists : Twin.Lists b xs) :
      (xs.map fun x => load factor none (Twin.left x)).sum = load factor none (Twin.left b) := by
    induction lists with
    | last => simp
    | more grouped semicolon _ ih =>
      rw [Twin.left_append, Twin.left_cons, semicolon, load_append grouped
        (.cons (by decide) (by decide) (by decide) _), load_cons_of_not_letter (by decide),
        @load_of_outside _ (some ';') (by decide), List.map_cons, List.sum_cons, ih]
  have grouped := lists.grouped
  refine ⟨?_, ?_⟩
  · rw [arguments]
    simp only [List.map_map, List.forall_mem_map, Function.comp_apply]
    exact fun x mem => Twin.grouped_strip (grouped x mem)
  · rw [arguments, List.map_map, List.map_map]
    have weighs := parts lists
    rw [Twin.left_same] at weighs
    rw [← weighs]
    exact congrArg List.sum (List.map_congr_left fun x mem => load_strip (grouped x mem))

/-! ## 6. Light contents -/

/-- An argument, or something that is put together from arguments, of at most the load. -/
structure Light (factor : Nat) (x : Text) (n : Nat) : Prop where
  grouped : Grouped (· ≠ ';') x
  load_le : ∀ before rest, Follows rest → load factor before (x ++ rest) ≤ n + load factor none rest

/-- A content of at most the load, wherever it stands. -/
structure LightContent (factor : Nat) (y : Text) (n : Nat) : Prop where
  content : IsContent y
  load_le : ∀ before rest, load factor before (y ++ rest) ≤ n + load factor (some ')') rest

namespace Light

variable {m n : Nat}

theorem of_grouped (positive : 0 < factor) (h : Grouped (· ≠ ';') x) :
    Light factor x (load factor none x) := by
  refine ⟨h, fun before rest follows => ?_⟩
  rw [load_append h follows]
  exact Nat.add_le_add_right (load_le_none positive before x) _

/-- Two of them with an operator between them. -/
theorem glue {s : Text} (joint : Twin.IsJoint s) (hx : Light factor x m)
    (hy : Light factor y n) : Light factor (x ++ (s ++ y)) (m + n) := by
  have plain := joint.plain
  refine ⟨hx.grouped.append ((Grouped.of_forall fun c mem => (plain c mem).2).append hy.grouped),
    fun before rest follows => ?_⟩
  rw [List.append_assoc, List.append_assoc]
  have front := hx.load_le before (s ++ (y ++ rest)) (joint.follows _)
  have back := hy.load_le (lastOr none s) rest follows
  rw [load_append_of_no_letters fun c mem => (plain c mem).1] at front
  omega

/-- No name begins in a number. -/
theorem of_figures (figures : ∀ c ∈ x, IsFigure c) : Light factor x 0 := by
  refine ⟨.of_forall fun c mem => (figures c mem).plain, fun before rest follows => ?_⟩
  rw [Nat.zero_add]
  induction x generalizing before with
  | nil => exact Nat.le_of_eq (load_of_stop follows.stop _ _)
  | cons c x ih =>
    rw [List.cons_append, load_of_not_beginsName (beginsName_of_figures figures follows.stop)]
    exact ih (List.forall_mem_cons.mp figures).2 _

end Light

/-- Between parentheses. -/
theorem LightContent.parens {n : Nat} (h : Light factor x n) :
    LightContent factor ('(' :: (x ++ [')'])) n := by
  refine ⟨.inr ⟨x, rfl, h.grouped⟩, fun before rest => ?_⟩
  have inner := h.load_le (some '(') (')' :: rest) (.cons (by decide) (by decide) (by decide) _)
  rw [load_cons_of_not_letter (by decide)] at inner
  simpa [load_cons_of_not_letter (show '(' ∉ latinLetters by decide)] using inner

theorem LightContent.light (positive : 0 < factor) {n : Nat} (h : LightContent factor y n) :
    Light factor y n :=
  ⟨h.content.grouped, fun before rest _ => (h.load_le before rest).trans
    (Nat.add_le_add_left (load_le_none positive _ rest) _)⟩

/-- A call of the rounding of the formula language. -/
theorem Light.round (positive : 0 < factor) {n : Nat} (h : Light factor x n) :
    Light factor ("round".toList ++ '(' :: (x ++ [')'])) n := by
  have content := LightContent.parens h
  refine ⟨(Grouped.of_forall (by decide)).append content.content.grouped, fun before rest _ => ?_⟩
  have whole : "round".toList ++ '(' :: (x ++ [')']) ++ rest =
      'r' :: ("ound".toList ++ ('(' :: (x ++ [')']) ++ rest)) := by simp
  have other : beginsName before 'r' ("ound".toList ++ ('(' :: (x ++ [')']) ++ rest)) = false := by
    rw [beginsName_append (by rfl), beginsName, Bool.and_eq_false_iff]
    exact .inr (by decide)
  rw [whole, load_of_not_beginsName other, load_append_of_inWord (by decide) (by decide)]
  exact (content.load_le _ rest).trans (Nat.add_le_add_left (load_le_none positive _ rest) _)

/-! ## 7. Rules -/

/-- Does the rule give contents that weigh no more than the arguments, as often as they count? -/
def Shorthand.SpellsLight (factor : Nat) (k : Shorthand) (spell : List Text → Option Text) : Prop :=
  ∀ xs y, (∀ x ∈ xs, Grouped (· ≠ ';') x) → spell xs = some y →
    LightContent factor y (k.multiplicity factor * (xs.map (load factor none)).sum)

theorem LightContent.mono {m n : Nat} (h : LightContent factor y m) (le : m ≤ n) :
    LightContent factor y n :=
  ⟨h.content, fun before rest => (h.load_le before rest).trans (Nat.add_le_add_right le _)⟩

theorem Light.digitsOf (n : Nat) : Light factor (digitsOf n) 0 :=
  .of_figures fun c mem => .inl (Digits.digitsOf n c mem)

namespace Shorthand

theorem spellsLight_conditional (positive : 0 < factor) :
    conditional.SpellsLight factor spellConditional := by
  intro xs y grouped spelled
  obtain ⟨condition, whenTrue, whenFalse, rfl, -, rfl⟩ := exists_of_spellConditional spelled
  have light (x : Text) (mem : x ∈ [condition, whenTrue, whenFalse]) :=
    Light.of_grouped positive (grouped x mem)
  have choice := (light condition (by simp)).glue (s := " ? ".toList)
    ⟨'?', [' '], rfl, by decide, by decide⟩ ((light whenTrue (by simp)).glue (s := " : ".toList)
      ⟨':', [' '], rfl, by decide, by decide⟩ (light whenFalse (by simp)))
  simpa [multiplicity] using LightContent.parens choice

theorem spellsLight_rounding (positive : 0 < factor) :
    rounding.SpellsLight factor spellRounding := by
  intro xs y grouped spelled
  unfold spellRounding at spelled
  split at spelled
  · rename_i amount places
    split at spelled
    · cases spelled
    · obtain ⟨n, -, rfl⟩ := Option.map_eq_some_iff.mp spelled
      have power : Light factor (digitsOf (Nat.pow 10 n)) 0 := .digitsOf _
      have product := (Light.of_grouped positive (grouped amount (by simp))).glue (s := " * ".toList)
        ⟨'*', [' '], rfl, by decide, by decide⟩ power
      have quotient := (product.round positive).glue (s := " / ".toList)
        ⟨'/', [' '], rfl, by decide, by decide⟩ power
      refine LightContent.mono ?_ (m := load factor none amount) (by simp [multiplicity])
      simpa using LightContent.parens quotient
  · cases spelled

theorem light_join (positive : 0 < factor) : (xs : List Text) → (∀ x ∈ xs, Grouped (· ≠ ';') x) →
    Light factor (Text.join " + ".toList xs) (xs.map (load factor none)).sum
  | [], _ => .of_figures (List.forall_mem_nil _)
  | [x], grouped => by simpa [Text.join] using Light.of_grouped positive (grouped x (by simp))
  | x :: y :: xs, grouped => by
    obtain ⟨first, others⟩ := List.forall_mem_cons.mp grouped
    have sum := (Light.of_grouped positive first).glue (s := " + ".toList)
      ⟨'+', [' '], rfl, by decide, by decide⟩ (light_join positive (y :: xs) others)
    simpa [Text.join] using sum

theorem spellsLight_average (positive : 0 < factor) (most : Int) :
    average.SpellsLight factor (spellAverage most) := by
  intro xs y grouped spelled
  unfold spellAverage at spelled
  split at spelled
  · cases spelled
  · obtain rfl := Option.some.inj spelled
    have quotient := ((LightContent.parens (light_join positive xs grouped)).light positive).glue
      (s := " / ".toList) ⟨'/', [' '], rfl, by decide, by decide⟩ (.digitsOf xs.length)
    simpa [multiplicity] using LightContent.parens quotient

/-- A choice between tiers writes the amount once for each. -/
theorem light_choicesOf (positive : 0 < factor) {amount : Text} (grouped : Grouped (· ≠ ';') amount)
    (otherwise : Number) : (tiers : List Tier) →
    Light factor (choicesOf amount otherwise.text tiers) (tiers.length * load factor none amount) ∧
      (tiers ≠ [] → LightContent factor (choicesOf amount otherwise.text tiers)
        (tiers.length * load factor none amount))
  | [] => ⟨by simpa [choicesOf] using Light.of_figures (isFigure_of_mem_text otherwise),
      fun empty => absurd rfl empty⟩
  | t :: ts => by
    have number (n : Number) : Light factor n.text 0 := .of_figures (isFigure_of_mem_text n)
    have rest := (light_choicesOf positive grouped otherwise ts).1
    have choice := ((LightContent.parens (Light.of_grouped positive grouped)).light positive).glue
      (s := " <= ".toList) ⟨'<', ['=', ' '], rfl, by decide, by decide⟩ <|
      (number t.threshold).glue (s := " ? ".toList) ⟨'?', [' '], rfl, by decide, by decide⟩ <|
      (number t.tariff).glue (s := " : ".toList) ⟨':', [' '], rfl, by decide, by decide⟩ rest
    have content : LightContent factor (choicesOf amount otherwise.text (t :: ts))
        ((t :: ts).length * load factor none amount) := by
      refine LightContent.mono ?_ (m := load factor none amount + (0 + (0 +
        ts.length * load factor none amount))) ?_
      · simpa [choicesOf] using LightContent.parens choice
      · rw [List.length_cons, Nat.succ_mul]
        omega
    exact ⟨content.light positive, fun _ => content⟩

theorem length_of_mapM {α β : Type} {f : α → Option β} {xs : List α} {ys : List β}
    (h : xs.mapM f = some ys) : ys.length = xs.length := by
  induction xs generalizing ys with
  | nil =>
    obtain rfl : [] = ys := by simpa using h
    rfl
  | cons x xs ih =>
    simp only [List.mapM_cons, bind, pure, Option.bind_eq_some_iff, Option.some.injEq] at h
    obtain ⟨y, -, ys, rest, rfl⟩ := h
    rw [List.length_cons, List.length_cons, ih rest]

theorem spellsLight_tieredRate {most : Int} (positive : 0 < factor) (room : most ≤ factor) :
    tieredRate.SpellsLight factor (spellTieredRate most) := by
  intro xs y grouped spelled
  unfold spellTieredRate at spelled
  split at spelled
  · cases spelled
  · rename_i amount tiers
    split at spelled
    · cases spelled
    · rename_i fits
      split at spelled
      · rename_i read all
        unfold tierChain at spelled
        dsimp only at spelled
        split at spelled
        · cases spelled
        · rename_i highest last
          obtain rfl := Option.some.inj spelled
          have few : (Tier.ordered read).length ≤ factor := by
            have same : (Tier.ordered read).length = tiers.length := by
              rw [Tier.ordered, length_sortBy, length_of_mapM all]
            simp only [Bool.or_eq_true, decide_eq_true_eq, not_or] at fits
            omega
          have chain := (light_choicesOf positive (grouped amount List.mem_cons_self)
            highest.tariff (Tier.ordered read)).2 fun empty => by simp [empty] at last
          refine chain.mono ?_
          rw [List.map_cons, List.sum_cons]
          exact Nat.mul_le_mul few (Nat.le_add_right _ _)
      · cases spelled

end Shorthand

/-! ## 8. Replacing calls takes from the load -/

/-- Does the call list more than an amount if it is a tiered rate, and does the content weigh no more
than what stands in it, as often as that counts? -/
def Lightens (factor : Nat) (k : Shorthand) (body y : Text) : Prop :=
  (k = .tieredRate → listsMore 0 body = true) ∧
    LightContent factor y (k.multiplicity factor * load factor none body)

namespace ReplacesCalls

variable {s s' : Text} {n : Nat}

variable {R : Shorthand → Text → Text → Prop}

/-- A body that is closed in the first text is closed in the second, and lists as much. -/
theorem closed {body rest : Text} (h : ReplacesCalls R before (body ++ ')' :: rest) s' n)
    (grouped : Grouped (fun _ => True) body) : ∃ body' rest' n₁ n₂, s' = body' ++ ')' :: rest' ∧
      Grouped (fun _ => True) body' ∧ ReplacesCalls R before body body' n₁ ∧
      ReplacesCalls R (some ')') rest rest' n₂ ∧ n = n₁ + n₂ := by
  have closed := grouped.bodyOf?_eq_some rest
  rcases h.cutsInStep 0 with ⟨none, -⟩ | ⟨b, b', r, r', n₁, n₂, body₁, body₂, cut, rfl, inside, behind, sum⟩
  · cases closed.symm.trans none
  · obtain rfl := Option.some.inj (body₁.symm.trans closed)
    obtain ⟨-, rfl⟩ := List.cons.inj (List.append_cancel_left cut)
    exact ⟨b', r', n₁, n₂, rfl, grouped_of_bodyOf? body₂, inside, behind, sum⟩

/-- **A tiered rate stays one**, its body and what follows it being replaced in. -/
theorem tieredCall {body rest : Text} (h : ReplacesCalls R (some c) s s' n)
    (found : tieredCall? before c s = some (body, rest)) :
    ∃ body' rest' n₁ n₂, tieredCall? before c s' = some (body', rest') ∧
      ReplacesCalls R (some '(') body body' n₁ ∧ ReplacesCalls R (some ')') rest rest' n₂ ∧ n = n₁ + n₂ := by
  obtain ⟨outside, word, front, whole, isFront, grouped, lists⟩ := tieredCall?_eq_some_iff.mp found
  obtain ⟨t, whole', inner⟩ := h.behind_front Shorthand.tieredRate.shorthandName isFront whole
  obtain ⟨body', rest', n₁, n₂, rfl, grouped', inside, behind, sum⟩ := inner.closed grouped
  refine ⟨body', rest', n₁, n₂, tieredCall?_eq_some_iff.mpr ⟨outside, word, front, whole', isFront,
    grouped', ?_⟩, inside, behind, sum⟩
  rwa [inside.listsMore_eq]

/-- **No other tiered rate comes about**: a content in parentheses lists one thing. -/
theorem tieredCall_eq_none (h : ReplacesCalls R (some c) s s' n)
    (none : tieredCall? before c s = .none) : tieredCall? before c s' = .none := by
  refine Option.eq_none_iff_forall_ne_some.mpr fun r found => ?_
  obtain ⟨body', rest'⟩ := r
  obtain ⟨outside, word, front, whole', isFront, grouped', lists⟩ := tieredCall?_eq_some_iff.mp found
  have sn := Shorthand.tieredRate.shorthandName
  have kept : ReplacesCalls R before (c :: s) (c :: s') n := .keep c h
  rcases kept.exists_front whole' (isFront.mem sn) with
    ⟨t, whole, inner⟩ | ⟨m, t, cut, single⟩
  · have closed := grouped'.bodyOf?_eq_some rest'
    rcases inner.cutsInStep 0 with ⟨-, open'⟩ |
      ⟨b, b', r, r', n₁, n₂, body₁, body₂, rfl, -, inside, -, -⟩
    · cases closed.symm.trans open'
    · obtain rfl := Option.some.inj (body₂.symm.trans closed)
      rw [inside.listsMore_eq] at lists
      cases none.symm.trans (tieredCall?_eq_some_iff.mpr
        ⟨outside, word, front, whole, isFront, grouped_of_bodyOf? body₁, lists⟩)
  · obtain ⟨rfl, -⟩ := grouped'.eq_of_closed single cut
    rw [listsMore_of_grouped single] at lists
    cases lists

/-- The same names begin where the first character is kept. -/
theorem beginsName_eq (h : ReplacesCalls R (some c) s s' n) :
    beginsName before c s' = beginsName before c s := by
  have same (k : Shorthand) : (dropSame? k.name.toList (c :: s')).isSome =
      (dropSame? k.name.toList (c :: s)).isSome := by
    have capitals := k.shorthandName.capitals
    match k.name.toList, capitals with
    | [], _ => rfl
    | w :: ws, capitals =>
      obtain ⟨first, others⟩ := List.forall_mem_cons.mp capitals
      rw [dropSame?, dropSame?]
      split
      · rename_i letter
        have word : inWord (some c) = true :=
          isNameChar_of_mem_latinLetters (mem_latinLetters_of_sameLetter first letter)
        exact h.isSome_dropSame? others word
      · rfl
  simp only [beginsName, same]

/-- **Replacing calls takes from the load.** -/
theorem load_le (positive : 0 < factor) (h : ReplacesCalls (Lightens factor) before s s' n) :
    load factor before s' + n ≤ load factor before s := by
  induction size : s.length using Nat.strong_induction_on generalizing s before s' n with
  | _ size ih =>
  subst size
  cases h with
  | nil => simp
  | @keep _ c s s' n more =>
    cases found : tieredCall? before c s with
    | some r =>
      obtain ⟨body, rest⟩ := r
      obtain ⟨body', rest', n₁, n₂, found', inside, behind, rfl⟩ := more.tieredCall found
      obtain ⟨-, word, front, whole, -⟩ := tieredCall?_eq_some_iff.mp found
      have length := congrArg List.length whole
      simp only [List.length_cons, List.length_append] at length
      have first := ih _ (by simp only [List.length_cons]; omega) inside rfl
      have second := ih _ (by simp only [List.length_cons]; omega) behind rfl
      have often := Nat.mul_le_mul_left factor first
      rw [Nat.mul_add] at often
      have once := Nat.le_mul_of_pos_left n₁ positive
      rw [load_of_tiered found, load_of_tiered found']
      omega
    | none =>
      have rest := ih s.length (Nat.lt_succ_self _) more rfl
      rw [load_of_none found, load_of_none (more.tieredCall_eq_none found), more.beginsName_eq]
      omega
  | @swap _ k word front body y s s' n outside isFront grouped content related more =>
    obtain ⟨lists, light⟩ := related
    have call := load_call positive outside isFront grouped lists s
    have content := light.load_le before s'
    have rest := ih s.length (by simp; omega) more rfl
    omega

end ReplacesCalls

end Haulage
