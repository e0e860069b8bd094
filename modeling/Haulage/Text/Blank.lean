/-
# Blanks

The characters that separate words without being part of one: the ASCII blanks and separators, and
the space characters of other scripts. `strip` drops them at both ends of a text.
-/
import Haulage.Text.Basic

namespace Haulage

/-- The ranges of blank characters. -/
def blankRanges : List (Nat × Nat) :=
  [(0x0009, 0x000D), (0x001C, 0x0020), (0x0085, 0x0085), (0x00A0, 0x00A0), (0x1680, 0x1680),
   (0x2000, 0x200A), (0x2028, 0x2029), (0x202F, 0x202F), (0x205F, 0x205F), (0x3000, 0x3000)]

/-- Is the character blank? -/
def isBlank (c : Char) : Bool := inRanges blankRanges c

/-- Every character that core counts as white space is blank. -/
theorem isBlank_of_isWhitespace {c : Char} (h : c.isWhitespace = true) : isBlank c = true := by
  simp only [Char.isWhitespace, Bool.or_eq_true, decide_eq_true_eq] at h
  rcases h with ((rfl | rfl) | rfl) | rfl <;> decide

namespace Text

/-- The text without the blanks it starts with. -/
def stripLeft (s : Text) : Text := s.dropWhile isBlank

/-- The text without the blanks it ends with. -/
def stripRight (s : Text) : Text := (s.reverse.dropWhile isBlank).reverse

/-- The text without the blanks at its two ends. -/
def strip (s : Text) : Text := s.stripLeft.stripRight

end Text

theorem mem_of_mem_strip {s : Text} {c : Char} (h : c ∈ s.strip) : c ∈ s := by
  have right := (List.dropWhile_sublist _).mem (List.mem_reverse.mp h)
  exact (List.dropWhile_sublist _).mem (List.mem_reverse.mp right)

theorem mem_strip {s : Text} {c : Char} (blank : isBlank c = false) (mem : c ∈ s) : c ∈ s.strip := by
  have kept {s : Text} (mem : c ∈ s) : c ∈ s.dropWhile isBlank := by
    rw [← List.takeWhile_append_dropWhile (p := isBlank) (l := s)] at mem
    refine (List.mem_append.mp mem).resolve_left fun front => ?_
    have := List.all_eq_true.mp List.all_takeWhile c front
    simp [blank] at this
  exact List.mem_reverse.mpr (kept (List.mem_reverse.mpr (kept mem)))

/-- What is dropped at the two ends is blank. -/
theorem exists_strip (s : Text) : ∃ f g, s = f ++ (s.strip ++ g) ∧
    (∀ c ∈ f, isBlank c = true) ∧ ∀ c ∈ g, isBlank c = true := by
  have back : s.strip ++ (s.stripLeft.reverse.takeWhile isBlank).reverse = s.stripLeft := by
    rw [Text.strip, Text.stripRight, ← List.reverse_append, List.takeWhile_append_dropWhile,
      List.reverse_reverse]
  refine ⟨s.takeWhile isBlank, (s.stripLeft.reverse.takeWhile isBlank).reverse, ?_,
    fun c mem => List.all_eq_true.mp List.all_takeWhile c mem,
    fun c mem => List.all_eq_true.mp List.all_takeWhile c (List.mem_reverse.mp mem)⟩
  rw [back, Text.stripLeft, List.takeWhile_append_dropWhile]

theorem dropWhile_eq_self_of_forall {p : Char → Bool} {s : Text} (kept : ∀ c ∈ s, p c = false) :
    s.dropWhile p = s := by
  cases s with
  | nil => rfl
  | cons c s => exact List.dropWhile_cons_of_neg (by simp [kept c (.head _)])

/-- Nothing is dropped at the two ends where all is kept. -/
theorem trim_eq_self {p : Char → Bool} {s : Text} (kept : ∀ c ∈ s, p c = false) :
    ((s.dropWhile p).reverse.dropWhile p).reverse = s := by
  rw [dropWhile_eq_self_of_forall kept,
    dropWhile_eq_self_of_forall fun c mem => kept c (List.mem_reverse.mp mem), List.reverse_reverse]

/-- What a text begins with is not dropped at its end either. -/
theorem exists_trim_append {p : Char → Bool} (front : Text) (some : front ≠ [])
    (kept : ∀ c ∈ front, p c = false) (s : Text) :
    ∃ rest, (((front ++ s).dropWhile p).reverse.dropWhile p).reverse = front ++ rest := by
  have left : (front ++ s).dropWhile p = front ++ s := by
    obtain ⟨c, cs, rfl⟩ := List.exists_cons_of_ne_nil some
    exact List.dropWhile_cons_of_neg (by simp [kept c (.head _)])
  rw [left, List.reverse_append, List.dropWhile_append,
    dropWhile_eq_self_of_forall fun c mem => kept c (List.mem_reverse.mp mem)]
  split
  · exact ⟨[], by rw [List.reverse_reverse, List.append_nil]⟩
  · exact ⟨_, by rw [List.reverse_append, List.reverse_reverse]⟩

/-- Nothing is dropped from a text without blanks. -/
theorem strip_eq_self {s : Text} (written : ∀ c ∈ s, isBlank c = false) : s.strip = s :=
  trim_eq_self written

/-- Nothing is left of a text exactly if all of it is blank. -/
theorem strip_eq_nil_iff {s : Text} : s.strip = [] ↔ ∀ c ∈ s, isBlank c = true := by
  constructor
  · intro nothing c mem
    cases blank : isBlank c with
    | true => rfl
    | false => simpa [nothing] using mem_strip blank mem
  · intro blank
    have nothing : s.stripLeft = [] := by
      induction s with
      | nil => rfl
      | cons c s ih =>
        rw [Text.stripLeft, List.dropWhile_cons_of_pos (blank c (.head _))]
        exact ih fun d mem => blank d (.tail _ mem)
    rw [Text.strip, nothing]
    rfl

end Haulage
