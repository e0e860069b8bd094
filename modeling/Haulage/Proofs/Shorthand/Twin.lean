/-
# Two texts side by side

A formula that is spelled out on two days comes out as two texts, and where the facts of the calendar
have as many digits on either day, the texts are the same but for some digits.  A `Twin` is such a
pair of texts, character by character, and it is `Alike` where the two characters of every cell are
one character or two digits.

Shorthands are found and taken apart without a look at any digit: a digit is no blank, no letter, no
parenthesis and no semicolon, whichever digit it is.  So in either text of a twin the same calls are
found (`Twin.headNamed_right`), with bodies (`Twin.exists_body`) and arguments
(`Twin.Lists.semicolonArguments`) that are twins again.
-/
import Haulage.Proofs.Shorthand.Words

namespace Haulage

/-! ## 1. Cells -/

/-- The characters at one place of two texts. -/
abbrev Cell := Char × Char

/-- One character, or two digits. -/
def Cell.Alike (c : Cell) : Prop := c.1 = c.2 ∨ c.1.isDigit = true ∧ c.2.isDigit = true

/-- Two texts of one length. -/
abbrev Twin := List Cell

/-- All digits are the same to the predicate. -/
def DigitBlind (p : Char → Bool) : Prop := ∃ b, ∀ c : Char, c.isDigit = true → p c = b

theorem DigitBlind.eq {p : Char → Bool} (blind : DigitBlind p) {c : Cell} (h : c.Alike) :
    p c.2 = p c.1 := by
  obtain ⟨b, const⟩ := blind
  rcases h with same | ⟨first, second⟩
  · rw [same]
  · rw [const _ first, const _ second]

theorem isNameChar_of_isDigit {c : Char} (h : c.isDigit = true) : isNameChar c = true :=
  isNameChar_of_isDigitLike (isDigitLike_of_isDigit h)

theorem digitBlind_isNameChar : DigitBlind isNameChar := ⟨true, fun _ => isNameChar_of_isDigit⟩

theorem digitBlind_isBlank : DigitBlind isBlank :=
  ⟨false, fun _ digit => Lexer.isBlank_of_isNameChar (isNameChar_of_isDigit digit)⟩

/-- Only digits differ. -/
theorem Cell.Alike.eq_of_not_isDigit {c : Cell} (h : c.Alike) (other : c.1.isDigit = false) :
    c.2 = c.1 :=
  h.elim Eq.symm fun digits => by simp [digits.1] at other

theorem Cell.Alike.swap {c : Cell} (h : c.Alike) : Cell.Alike c.swap :=
  h.elim (fun same => .inl same.symm) fun digits => .inr digits.symm

namespace Twin

/-- The first of the two texts. -/
def left (z : Twin) : Text := z.map Prod.fst

/-- The second of the two texts. -/
def right (z : Twin) : Text := z.map Prod.snd

/-- The two texts are the same but for some digits. -/
def Alike (z : Twin) : Prop := ∀ c ∈ z, Cell.Alike c

/-- A text beside itself. -/
def same (s : Text) : Twin := s.map fun c => (c, c)

@[simp] theorem left_nil : left [] = [] := rfl

@[simp] theorem right_nil : right [] = [] := rfl

@[simp] theorem left_cons (c : Cell) (z : Twin) : left (c :: z) = c.1 :: left z := rfl

@[simp] theorem right_cons (c : Cell) (z : Twin) : right (c :: z) = c.2 :: right z := rfl

@[simp] theorem left_append (x y : Twin) : left (x ++ y) = left x ++ left y := List.map_append

@[simp] theorem right_append (x y : Twin) : right (x ++ y) = right x ++ right y := List.map_append

@[simp] theorem length_left (z : Twin) : (left z).length = z.length := List.length_map _

@[simp] theorem length_right (z : Twin) : (right z).length = z.length := List.length_map _

@[simp] theorem left_same (s : Text) : left (same s) = s := by
  simp [left, same, Function.comp_def]

@[simp] theorem right_same (s : Text) : right (same s) = s := by
  simp [right, same, Function.comp_def]

theorem alike_same (s : Text) : Alike (same s) := by
  intro c mem
  obtain ⟨d, -, rfl⟩ := List.mem_map.mp mem
  exact .inl rfl

theorem alike_cons {c : Cell} {z : Twin} : Alike (c :: z) ↔ c.Alike ∧ Alike z :=
  List.forall_mem_cons

theorem alike_append {x y : Twin} : Alike (x ++ y) ↔ Alike x ∧ Alike y := List.forall_mem_append

theorem Alike.swap {z : Twin} (h : Alike z) : Alike (z.map Prod.swap) := by
  intro c mem
  obtain ⟨d, mem', rfl⟩ := List.mem_map.mp mem
  exact (h d mem').swap

theorem left_swap (z : Twin) : left (z.map Prod.swap) = right z := by
  simp [left, right, Function.comp_def]

theorem right_swap (z : Twin) : right (z.map Prod.swap) = left z := by
  simp [left, right, Function.comp_def]

/-- Without digits the two texts are one. -/
theorem Alike.right_eq_left {z : Twin} (h : Alike z) (none : ∀ c ∈ left z, c.isDigit = false) :
    right z = left z := by
  induction z with
  | nil => rfl
  | cons c z ih =>
    obtain ⟨first, rest⟩ := alike_cons.mp h
    obtain ⟨first', rest'⟩ := List.forall_mem_cons.mp none
    rw [right_cons, left_cons, first.eq_of_not_isDigit first', ih rest rest']

/-- The text is cut, and the twin with it. -/
theorem exists_of_left_eq_append {z : Twin} {x y : Text} (h : left z = x ++ y) :
    ∃ zx zy, z = zx ++ zy ∧ left zx = x ∧ left zy = y := by
  obtain ⟨zx, zy, rfl, hx, hy⟩ := List.map_eq_append_iff.mp h
  exact ⟨zx, zy, rfl, hx, hy⟩

theorem exists_of_left_eq_cons {z : Twin} {d : Char} {y : Text} (h : left z = d :: y) :
    ∃ c zy, z = c :: zy ∧ c.1 = d ∧ left zy = y := by
  obtain ⟨c, zy, rfl, hc, hy⟩ := List.map_eq_cons_iff.mp h
  exact ⟨c, zy, rfl, hc, hy⟩

end Twin

/-! ## 2. Heads -/

theorem isDigit_of_mem_latinLetters {c : Char} (h : c ∈ latinLetters) : c.isDigit = false :=
  Bool.eq_false_iff.mpr fun digit => by
    simpa [(class_of_mem_latinLetters c h).2.1] using isDigitLike_of_isDigit digit

theorem isDigit_of_isBlank {c : Char} (h : isBlank c = true) : c.isDigit = false :=
  Bool.eq_false_iff.mpr fun digit => by
    simp [Lexer.isBlank_of_isNameChar (isNameChar_of_isDigit digit)] at h

theorem IsFront.isDigit {name word front : Text} (h : IsFront name word front)
    (sn : ShorthandName name) : ∀ d ∈ front, d.isDigit = false := fun d mem =>
  (h.mem sn d mem).elim isDigit_of_mem_latinLetters isDigit_of_isBlank

namespace Twin

variable {name : Text} {before before' : Option Char} {c : Cell} {z : Twin}

/-- A head in the first text is a part of the twin. -/
theorem headNamed_left_iff (sn : ShorthandName name) {h : CallHead} :
    headNamed name before c.1 (left z) = some h ↔ inWord before = false ∧ ∃ word front p inside,
      c :: z = front ++ p :: inside ∧ p.1 = '(' ∧ IsFront name word (left front) ∧
        h = ⟨word, front.length + 1⟩ := by
  rw [headNamed_eq_some_iff sn]
  refine and_congr_right fun _ => exists_congr fun word => ?_
  constructor
  · rintro ⟨front, inside, whole, isFront, rfl⟩
    rw [← left_cons] at whole
    obtain ⟨zf, rest, cut, rfl, opened⟩ := exists_of_left_eq_append whole
    obtain ⟨p, zi, rfl, opens, -⟩ := exists_of_left_eq_cons opened
    exact ⟨zf, p, zi, cut, opens, isFront, by rw [length_left]⟩
  · rintro ⟨front, p, inside, cut, opens, isFront, rfl⟩
    refine ⟨left front, left inside, ?_, isFront, by rw [length_left]⟩
    rw [← left_cons, cut, left_append, left_cons, opens]

/-- Behind the head the two texts go on side by side. -/
theorem drop_head {front inside : Twin} {p : Cell} (cut : c :: z = front ++ p :: inside) :
    (c :: z).drop (front.length + 1) = inside ∧
      (c.1 :: left z).drop (front.length + 1) = left inside ∧
      (c.2 :: right z).drop (front.length + 1) = right inside := by
  have behind : (c :: z).drop (front.length + 1) = inside := by
    rw [cut, List.append_cons]
    exact List.drop_left' (by simp)
  refine ⟨behind, ?_, ?_⟩
  · rw [← left_cons, left, ← List.map_drop, behind]
    rfl
  · rw [← right_cons, right, ← List.map_drop, behind]
    rfl

/-- What is found in the first text only if it is found in the second is found in both or in
neither. -/
theorem right_eq_none {α : Type} {f g : Char → Text → Option α}
    (passes : ∀ (c : Cell) (z : Twin) (a : α), Alike (c :: z) → f c.1 (left z) = some a →
      g c.2 (right z) ≠ none)
    (alike : Alike (c :: z)) (missing : g c.1 (left z) = none) : f c.2 (right z) = none := by
  refine Option.eq_none_iff_forall_ne_some.mpr fun a found => ?_
  rw [← left_swap] at found
  refine passes c.swap (z.map Prod.swap) a alike.swap found ?_
  rw [right_swap]
  exact missing

/-- A head in the first text is one in the second. -/
theorem headNamed_right_of_left (sn : ShorthandName name) (alike : Alike (c :: z))
    (same : inWord before' = inWord before) {h : CallHead}
    (found : headNamed name before c.1 (left z) = some h) :
    headNamed name before' c.2 (right z) = some h := by
  obtain ⟨outside, word, front, p, inside, cut, opens, isFront, rfl⟩ :=
    (headNamed_left_iff sn).mp found
  rw [cut, alike_append, alike_cons] at alike
  obtain ⟨af, ap, -⟩ := alike
  have fronts : right front = left front := af.right_eq_left (isFront.isDigit sn)
  have paren : p.2 = '(' := (ap.eq_of_not_isDigit (by rw [opens]; decide)).trans opens
  refine (headNamed_eq_some_iff sn).mpr
    ⟨same.trans outside, word, left front, right inside, ?_, isFront, by rw [length_left]⟩
  rw [← right_cons, cut, right_append, right_cons, fronts, paren]

/-- **The same heads are found** in the two texts of a twin. -/
theorem headNamed_right (sn : ShorthandName name) (alike : Alike (c :: z))
    (same : inWord before' = inWord before) :
    headNamed name before' c.2 (right z) = headNamed name before c.1 (left z) := by
  cases found : headNamed name before c.1 (left z) with
  | some h => exact headNamed_right_of_left sn alike same found
  | none =>
    refine right_eq_none (fun c z h alike found' => ?_) alike found
    rw [headNamed_right_of_left sn alike same.symm found']
    exact Option.some_ne_none h

/-! ## 3. Bodies -/

/-- Digits stand where other digits stand, so what is grouped in the first text is grouped in the
second. -/
theorem grouped_right {p : Char → Prop} (digit : ∀ d : Char, d.isDigit = true → p d) {z : Twin}
    (alike : Alike z) (h : Grouped p (left z)) : Grouped p (right z) := by
  generalize whole : left z = s at h
  induction h generalizing z with
  | nil =>
    obtain rfl := List.map_eq_nil_iff.mp whole
    exact .nil
  | plain outside notOpen notClose _ ih =>
    obtain ⟨c, z, rfl, rfl, rest⟩ := exists_of_left_eq_cons whole
    obtain ⟨first, more⟩ := alike_cons.mp alike
    rcases first with same | ⟨-, second⟩
    · rw [right_cons, ← same]
      exact .plain outside notOpen notClose (ih digit more rest)
    · have other {d : Char} (h : d.isDigit = false) : c.2 ≠ d := by
        rintro rfl
        simp [second] at h
      exact .plain (digit _ second) (other (by decide)) (other (by decide)) (ih digit more rest)
  | group _ _ ihx ihy =>
    obtain ⟨o, z, rfl, opens, rest⟩ := exists_of_left_eq_cons whole
    obtain ⟨zx, z', rfl, inside, rest⟩ := exists_of_left_eq_append rest
    obtain ⟨c, zy, rfl, closes, more⟩ := exists_of_left_eq_cons rest
    simp only [alike_cons, alike_append] at alike
    obtain ⟨ao, ax, ac, ay⟩ := alike
    rw [right_cons, right_append, right_cons, ao.eq_of_not_isDigit (by rw [opens]; decide),
      ac.eq_of_not_isDigit (by rw [closes]; decide), opens, closes]
    exact .group (ihx (fun _ _ => trivial) ax inside) (ihy digit ay more)

/-- A closed call is one in either text, with bodies side by side. -/
theorem exists_body (alike : Alike z) {body : Text} (h : bodyOf? 0 (left z) = some body) :
    ∃ b p r, z = b ++ p :: r ∧ left b = body ∧ p.1 = ')' ∧ Grouped (fun _ => True) (left b) ∧
      bodyOf? 0 (right z) = some (right b) := by
  obtain ⟨rest, whole⟩ := exists_of_bodyOf? h
  obtain ⟨b, z', rfl, rfl, cut⟩ := exists_of_left_eq_append whole
  obtain ⟨p, r, rfl, closes, -⟩ := exists_of_left_eq_cons cut
  have grouped := grouped_of_bodyOf? h
  simp only [alike_cons, alike_append] at alike
  refine ⟨b, p, r, rfl, rfl, closes, grouped, ?_⟩
  rw [right_append, right_cons, alike.2.1.eq_of_not_isDigit (by rw [closes]; decide), closes]
  exact (grouped_right (fun _ _ => trivial) alike.1 grouped).bodyOf?_eq_some _

theorem bodyOf?_right_of_none (alike : Alike z) (h : bodyOf? 0 (left z) = none) :
    bodyOf? 0 (right z) = none := by
  refine Option.eq_none_iff_forall_ne_some.mpr fun body found => ?_
  rw [← left_swap] at found
  obtain ⟨b, p, r, -, -, -, -, back⟩ := exists_body alike.swap found
  rw [right_swap, h] at back
  cases back

/-! ## 4. Arguments -/

/-- The body lists the arguments between semicolons, blanks around them included. -/
inductive Lists : Twin → List Twin → Prop
  | last {x : Twin} (grouped : Grouped (· ≠ ';') (left x)) : Lists x [x]
  | more {x b : Twin} {q : Cell} {xs : List Twin} (grouped : Grouped (· ≠ ';') (left x))
      (semicolon : q.1 = ';') (others : Lists b xs) : Lists (x ++ q :: b) (x :: xs)

theorem Lists.prepend {w x b : Twin} {xs : List Twin} (grouped : Grouped (· ≠ ';') (left w))
    (h : Lists b (x :: xs)) : Lists (w ++ b) ((w ++ x) :: xs) := by
  cases h with
  | last grouped' =>
    refine .last ?_
    rw [left_append]
    exact grouped.append grouped'
  | more grouped' semicolon others =>
    rw [← List.append_assoc]
    refine .more ?_ semicolon others
    rw [left_append]
    exact grouped.append grouped'

/-- A body lists arguments. -/
theorem exists_lists {b : Twin} (h : Grouped (fun _ => True) (left b)) :
    ∃ x xs, Lists b (x :: xs) := by
  generalize whole : left b = s at h
  generalize any : (fun _ : Char => True) = p at h
  induction h generalizing b with
  | nil =>
    obtain rfl := List.map_eq_nil_iff.mp whole
    exact ⟨[], [], .last .nil⟩
  | @plain _ d _ _ notOpen notClose _ ih =>
    obtain ⟨c, b, rfl, rfl, rest⟩ := exists_of_left_eq_cons whole
    obtain ⟨x, xs, lists⟩ := ih rest any
    by_cases semicolon : c.1 = ';'
    · exact ⟨[], x :: xs, .more (x := []) .nil semicolon lists⟩
    · exact ⟨c :: x, xs, lists.prepend (w := [c]) (.plain semicolon notOpen notClose .nil)⟩
  | group inside _ _ ih =>
    obtain ⟨o, z, rfl, opens, inner⟩ := exists_of_left_eq_cons whole
    obtain ⟨zx, z', rfl, rfl, rest⟩ := exists_of_left_eq_append inner
    obtain ⟨c, zy, rfl, closes, more⟩ := exists_of_left_eq_cons rest
    obtain ⟨x, xs, lists⟩ := ih more any
    have grouped : Grouped (· ≠ ';') (left (o :: (zx ++ [c]))) := by
      simp only [left_cons, left_append, left_nil, opens, closes]
      exact .group inside .nil
    refine ⟨o :: (zx ++ [c]) ++ x, xs, ?_⟩
    simpa using lists.prepend grouped

/-- A body with its arguments. -/
theorem Lists.grouped {b : Twin} {xs : List Twin} (h : Lists b xs) :
    ∀ x ∈ xs, Grouped (· ≠ ';') (left x) := by
  induction h with
  | last grouped => exact List.forall_mem_singleton.mpr grouped
  | more grouped _ _ ih => exact List.forall_mem_cons.mpr ⟨grouped, ih⟩

theorem Lists.alike {b : Twin} {xs : List Twin} (h : Lists b xs) (alike : Alike b) :
    ∀ x ∈ xs, Alike x := by
  induction h with
  | last => exact List.forall_mem_singleton.mpr alike
  | more _ _ _ ih =>
    rw [alike_append, alike_cons] at alike
    exact List.forall_mem_cons.mpr ⟨alike.1, ih alike.2.2⟩

theorem Lists.ne_nil {b : Twin} {xs : List Twin} (h : Lists b xs) : xs ≠ [] := by
  cases h <;> exact List.cons_ne_nil _ _

theorem join_semicolon_cons (x : Text) {parts : List Text} (nonempty : parts ≠ []) :
    Text.join ";".toList (x :: parts) = x ++ ';' :: Text.join ";".toList parts := by
  obtain ⟨y, ys, rfl⟩ := List.exists_cons_of_ne_nil nonempty
  simp [Text.join]

theorem Lists.join_left {b : Twin} {xs : List Twin} (h : Lists b xs) :
    left b = Text.join ";".toList (xs.map left) := by
  induction h with
  | last => rfl
  | more _ semicolon others ih =>
    rw [left_append, left_cons, semicolon, ih, List.map_cons,
      join_semicolon_cons _ (by simpa using others.ne_nil)]

theorem Lists.join_right {b : Twin} {xs : List Twin} (h : Lists b xs) (alike : Alike b) :
    right b = Text.join ";".toList (xs.map right) := by
  induction h with
  | last => rfl
  | @more x b q xs _ semicolon others ih =>
    rw [alike_append, alike_cons] at alike
    have same : q.2 = ';' := (alike.2.1.eq_of_not_isDigit (by rw [semicolon]; decide)).trans semicolon
    rw [right_append, right_cons, same, ih alike.2.2, List.map_cons,
      join_semicolon_cons _ (by simpa using others.ne_nil)]

/-- The twin without the blanks at its two ends. -/
def strip (z : Twin) : Twin :=
  ((z.dropWhile (isBlank ·.1)).reverse.dropWhile (isBlank ·.1)).reverse

theorem left_strip (z : Twin) : left (strip z) = (left z).strip := by
  simp [strip, left, Text.strip, Text.stripLeft, Text.stripRight, List.dropWhile_map,
    ← List.map_reverse, Function.comp_def]

theorem right_strip {z : Twin} (alike : Alike z) : right (strip z) = (right z).strip := by
  have same {z : Twin} (alike : Alike z) :
      z.dropWhile (isBlank ·.1) = z.dropWhile (isBlank ·.2) := by
    induction z with
    | nil => rfl
    | cons c z ih =>
      obtain ⟨first, rest⟩ := alike_cons.mp alike
      rw [List.dropWhile_cons, List.dropWhile_cons, digitBlind_isBlank.eq first, ih rest]
  have inner : Alike (z.dropWhile (isBlank ·.2)).reverse := fun c mem =>
    alike c ((List.dropWhile_sublist _).mem (List.mem_reverse.mp mem))
  rw [strip, same alike, same inner]
  simp [right, Text.strip, Text.stripLeft, Text.stripRight, List.dropWhile_map,
    ← List.map_reverse, Function.comp_def]

/-- Blanks are left out at the two ends. -/
theorem exists_of_strip (z : Twin) : ∃ f g, z = f ++ (strip z ++ g) ∧
    (∀ c ∈ left f, isBlank c = true) ∧ ∀ c ∈ left g, isBlank c = true := by
  have blank (s : Twin) : ∀ c ∈ left (s.takeWhile (isBlank ·.1)), isBlank c = true := by
    intro c mem
    obtain ⟨d, inside, rfl⟩ := List.mem_map.mp mem
    exact List.mem_takeWhile_imp (p := fun d : Cell => isBlank d.1) inside
  let s := (z.dropWhile (isBlank ·.1)).reverse
  refine ⟨z.takeWhile (isBlank ·.1), (s.takeWhile (isBlank ·.1)).reverse, ?_, blank z,
    fun c mem => blank s c ?_⟩
  · rw [strip, ← List.reverse_append, List.takeWhile_append_dropWhile, List.reverse_reverse,
      List.takeWhile_append_dropWhile]
  · rwa [left, List.map_reverse, List.mem_reverse] at mem

theorem grouped_strip {x : Twin} (h : Grouped (· ≠ ';') (left x)) :
    Grouped (· ≠ ';') (left (strip x)) := by
  obtain ⟨f, g, whole, front, back⟩ := exists_of_strip x
  rw [whole, left_append, left_append] at h
  exact (h.of_plain_append (plain_of_blanks front)).of_append_plain (plain_of_blanks back)

theorem alike_strip {x : Twin} (h : Alike x) : Alike (strip x) := by
  obtain ⟨f, g, whole, -, -⟩ := exists_of_strip x
  rw [whole, alike_append, alike_append] at h
  exact h.2.1

/-- **The arguments of two calls** are side by side. -/
theorem Lists.semicolonArguments {b : Twin} {xs : List Twin} (h : Lists b xs) (alike : Alike b) :
    semicolonArguments (left b) = (xs.map strip).map left ∧
      semicolonArguments (right b) = (xs.map strip).map right := by
  have grouped := h.grouped
  have alikes := h.alike alike
  constructor
  · rw [h.join_left, semicolonArguments_join (by simpa using h.ne_nil)
      (List.forall_mem_map.mpr grouped)]
    simp [left_strip]
  · have digit (d : Char) (digit : d.isDigit = true) : d ≠ ';' := by
      rintro rfl
      exact absurd digit (by decide)
    rw [h.join_right alike, semicolonArguments_join (by simpa using h.ne_nil)
      (List.forall_mem_map.mpr fun x mem => grouped_right digit (alikes x mem) (grouped x mem))]
    rw [List.map_map, List.map_map]
    exact List.map_congr_left fun x mem => (right_strip (alikes x mem)).symm

end Twin

end Haulage
