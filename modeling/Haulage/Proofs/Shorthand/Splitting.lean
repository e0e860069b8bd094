/-
# Splitting undoes joining

The arguments of a call are written one after the other with a separator between them, and blanks may
stand around each.  `Enumerates` says that a body is written like this, and `IsArgument` what an
argument may be: its parentheses match, no separator stands outside of them, and no blank at its ends.

The theorem of this module is that a body is split into arguments in just one way
(`splitArguments_eq_iff`): what it is split into is what it enumerates.  One direction is an
induction on how the body is written.  For the other the body is cut at its first separator outside
parentheses (`Grouped.exists_cut`); a body with none is the last argument.
-/
import Haulage.Proofs.Shorthand.Grouping

namespace Haulage

/-! ## 1. Blanks around a text -/

/-- No blank stands at either end of the text. -/
structure Trimmed (s : Text) : Prop where
  starts : s.head?.any isBlank = false
  ends : s.getLast?.any isBlank = false

/-- The text is a part with blanks around it. -/
def Padded (part s : Text) : Prop :=
  ∃ front back, s = front ++ (part ++ back) ∧ (∀ c ∈ front, isBlank c = true) ∧
    ∀ c ∈ back, isBlank c = true

section Padded

variable {part s front : Text}

theorem Padded.refl (part : Text) : Padded part part := ⟨[], [], by simp, by simp, by simp⟩

theorem Padded.blanks_append (padded : Padded part s) (blank : ∀ c ∈ front, isBlank c = true) :
    Padded part (front ++ s) := by
  obtain ⟨front', back, rfl, blank', behind⟩ := padded
  refine ⟨front ++ front', back, by simp, fun c mem => ?_, behind⟩
  exact (List.mem_append.mp mem).elim (blank c) (blank' c)

/-- Any text is its middle with blanks around it. -/
theorem padded_strip (s : Text) : Padded s.strip s := exists_strip s

/-- What is left between the blanks is trimmed. -/
theorem trimmed_strip (s : Text) : Trimmed s.strip := by
  constructor
  · have kept : s.stripLeft = s.strip ++ (s.stripLeft.reverse.takeWhile isBlank).reverse := by
      rw [Text.strip, Text.stripRight, ← List.reverse_append, List.takeWhile_append_dropWhile,
        List.reverse_reverse]
    have starts : s.stripLeft.head?.any isBlank = false := Lexer.head?_dropWhile_any isBlank s
    rw [kept] at starts
    exact Lexer.head?_append_any starts
  · rw [Text.strip, Text.stripRight, List.getLast?_reverse]
    exact Lexer.head?_dropWhile_any isBlank _

/-- Only the blanks around a trimmed text are dropped. -/
theorem Padded.strip_eq (padded : Padded part s) (trimmed : Trimmed part) : s.strip = part := by
  obtain ⟨front, back, rfl, before, behind⟩ := padded
  cases part with
  | nil =>
    refine strip_eq_nil_iff.mpr fun c mem => ?_
    rw [List.nil_append] at mem
    exact (List.mem_append.mp mem).elim (before c) (behind c)
  | cons d ds =>
    have left : (front ++ (d :: ds ++ back)).stripLeft = d :: ds ++ back := by
      rw [Text.stripLeft, List.dropWhile_append_of_pos before]
      exact Lexer.dropWhile_eq_self_of_head trimmed.starts
    have right : (d :: ds).reverse.head?.any isBlank = false := by
      rw [List.head?_reverse]
      exact trimmed.ends
    rw [Text.strip, left, Text.stripRight, List.reverse_append,
      List.dropWhile_append_of_pos fun c mem => behind c (List.mem_reverse.mp mem),
      Lexer.dropWhile_eq_self_of_head right, List.reverse_reverse]

/-- Blanks around a part do not matter for its parentheses. -/
theorem Padded.grouped_iff {p : Char → Prop} (padded : Padded part s)
    (blank : ∀ c, isBlank c = true → p c) : Grouped p s ↔ Grouped p part := by
  obtain ⟨front, back, rfl, before, behind⟩ := padded
  have grouped {bs : Text} (blanks : ∀ c ∈ bs, isBlank c = true) : Grouped p bs :=
    .of_forall fun c mem => ⟨blank c (blanks c mem), plain_of_blanks blanks c mem⟩
  constructor
  · intro h
    exact (h.of_plain_append (plain_of_blanks before)).of_append_plain (plain_of_blanks behind)
  · intro h
    exact (grouped before).append (h.append (grouped behind))

end Padded

/-! ## 2. Arguments with separators between them -/

/-- An argument: its parentheses match, no separator stands outside of them, and no blank at either
end. -/
structure IsArgument (separator : Char) (part : Text) : Prop where
  grouped : Grouped (· ≠ separator) part
  trimmed : Trimmed part

/-- The body is the parts in their order, with blanks around each and a separator between
neighbours. -/
inductive Enumerates (separator : Char) : List Text → Text → Prop
  | last {part s : Text} (padded : Padded part s) : Enumerates separator [part] s
  | more {part s rest : Text} {parts : List Text} (padded : Padded part s)
      (others : Enumerates separator parts rest) :
      Enumerates separator (part :: parts) (s ++ separator :: rest)

section Enumerates

variable {separator : Char} {parts : List Text} {body : Text}

theorem Enumerates.blanks_append {front : Text} (h : Enumerates separator parts body)
    (blank : ∀ c ∈ front, isBlank c = true) : Enumerates separator parts (front ++ body) := by
  cases h with
  | last padded => exact .last (padded.blanks_append blank)
  | more padded others =>
    rw [← List.append_assoc]
    exact .more (padded.blanks_append blank) others

/-- Parts are enumerated where they are joined by a separator with blanks around it. -/
theorem enumerates_join {front back : Text} (some : parts ≠ [])
    (before : ∀ c ∈ front, isBlank c = true) (behind : ∀ c ∈ back, isBlank c = true) :
    Enumerates separator parts (Text.join (front ++ separator :: back) parts) := by
  induction parts with
  | nil => exact absurd rfl some
  | cons part parts ih =>
    cases parts with
    | nil => exact .last (.refl part)
    | cons part' parts =>
      have join : Text.join (front ++ separator :: back) (part :: part' :: parts) =
          (part ++ front) ++ separator ::
            (back ++ Text.join (front ++ separator :: back) (part' :: parts)) := by
        simp [Text.join]
      rw [join]
      exact .more ⟨[], front, rfl, by simp, before⟩
        ((ih (List.cons_ne_nil _ _)).blanks_append behind)

end Enumerates

/-! ## 3. Splitting -/

section Splitting

variable {x : Text}

/-- **A grouped text is cut at its first separator outside parentheses**, if it has one. -/
theorem Grouped.exists_cut (separator : Char) {p : Char → Prop} (h : Grouped p x) :
    ∃ y, Grouped (· ≠ separator) y ∧
      (x = y ∨ ∃ rest, x = y ++ separator :: rest ∧ Grouped p rest) := by
  induction h with
  | nil => exact ⟨[], .nil, .inl rfl⟩
  | @plain _ c cs outside notOpen notClose more ih =>
    by_cases separates : c = separator
    · subst separates
      exact ⟨[], .nil, .inr ⟨cs, rfl, more⟩⟩
    · obtain ⟨y, grouped, cut⟩ := ih
      refine ⟨c :: y, .plain separates notOpen notClose grouped, ?_⟩
      rcases cut with rfl | ⟨rest, rfl, behind⟩
      · exact .inl rfl
      · exact .inr ⟨rest, rfl, behind⟩
  | @group _ inner z inside _ _ ih =>
    obtain ⟨y, grouped, cut⟩ := ih
    refine ⟨'(' :: (inner ++ ')' :: y), .group inside grouped, ?_⟩
    rcases cut with rfl | ⟨rest, rfl, behind⟩
    · exact .inl rfl
    · exact .inr ⟨rest, by simp, behind⟩

end Splitting

section Arguments

variable {separator : Char} {parts : List Text} {body : Text}

theorem ne_of_isBlank (visible : isBlank separator = false) (c : Char) (blank : isBlank c = true) :
    c ≠ separator := by
  rintro rfl
  rw [visible] at blank
  cases blank

/-- What a body enumerates is what it is split into. -/
theorem Enumerates.splitArguments_eq (h : Enumerates separator parts body) (notOpen : separator ≠ '(')
    (notClose : separator ≠ ')') (visible : isBlank separator = false)
    (arguments : ∀ part ∈ parts, IsArgument separator part) :
    Grouped (fun _ => True) body ∧ splitArguments (· == separator) body = parts := by
  induction h with
  | @last part s padded =>
    have argument := arguments part (.head _)
    have grouped := (padded.grouped_iff (ne_of_isBlank visible)).mpr argument.grouped
    refine ⟨grouped.mono fun _ _ => trivial, ?_⟩
    rw [splitArguments, grouped.splitAtDepth_alone notClose, List.map_singleton,
      padded.strip_eq argument.trimmed]
  | @more part s rest parts padded _ ih =>
    obtain ⟨argument, arguments⟩ := List.forall_mem_cons.mp arguments
    obtain ⟨groupedRest, split⟩ := ih arguments
    have grouped := (padded.grouped_iff (ne_of_isBlank visible)).mpr argument.grouped
    constructor
    · exact (grouped.mono fun _ _ => trivial).append (.plain trivial notOpen notClose groupedRest)
    · rw [splitArguments, grouped.splitAtDepth_cut notOpen notClose, List.map_cons,
        padded.strip_eq argument.trimmed, ← splitArguments, split]

/-- What a body is split into is what it enumerates. -/
theorem enumerates_splitArguments (grouped : Grouped (fun _ => True) body)
    (notOpen : separator ≠ '(') (notClose : separator ≠ ')') (visible : isBlank separator = false) :
    Enumerates separator (splitArguments (· == separator) body) body ∧
      ∀ part ∈ splitArguments (· == separator) body, IsArgument separator part := by
  have argument {y : Text} (h : Grouped (· ≠ separator) y) : IsArgument separator y.strip :=
    ⟨((padded_strip y).grouped_iff (ne_of_isBlank visible)).mp h, trimmed_strip y⟩
  -- on the length of the body, since what is behind a separator is shorter
  induction size : body.length using Nat.strong_induction_on generalizing body with
  | _ n ih =>
    obtain ⟨y, first, rfl | ⟨rest, rfl, behind⟩⟩ := grouped.exists_cut separator
    · rw [splitArguments, first.splitAtDepth_alone notClose, List.map_singleton]
      exact ⟨.last (padded_strip body), List.forall_mem_singleton.mpr (argument first)⟩
    · have shorter : rest.length < n := by
        simp only [List.length_append, List.length_cons] at size
        omega
      obtain ⟨others, arguments⟩ := ih _ shorter behind rfl
      rw [splitArguments, first.splitAtDepth_cut notOpen notClose, List.map_cons, ← splitArguments]
      exact ⟨.more (padded_strip y) others, List.forall_mem_cons.mpr ⟨argument first, arguments⟩⟩

/-- **Splitting undoes joining**, and joining undoes splitting.  A body whose parentheses match is
split into these parts exactly if they are arguments and the body enumerates them.  The separator may
be any character but a blank or a parenthesis. -/
theorem splitArguments_eq_iff (notOpen : separator ≠ '(') (notClose : separator ≠ ')')
    (visible : isBlank separator = false) :
    Grouped (fun _ => True) body ∧ splitArguments (· == separator) body = parts ↔
      Enumerates separator parts body ∧ ∀ part ∈ parts, IsArgument separator part := by
  constructor
  · rintro ⟨grouped, rfl⟩
    exact enumerates_splitArguments grouped notOpen notClose visible
  · rintro ⟨enumerates, arguments⟩
    exact enumerates.splitArguments_eq notOpen notClose visible arguments

theorem splitArguments_eq_iff_of_nested :
    (Grouped (fun _ => True) "f(a;b) ;  ; c".toList ∧
      splitArguments (· == ';') "f(a;b) ;  ; c".toList = ["f(a;b)".toList, [], ['c']]) ∧
    Enumerates ',' ["f(a;b) ;  ; c".toList] "f(a;b) ;  ; c".toList ∧
      ∀ part ∈ ["f(a;b) ;  ; c".toList], IsArgument ',' part := by
  have inside : Grouped (fun _ => True) "a;b".toList :=
    .of_forall fun c mem => ⟨trivial, (by decide : Plain "a;b".toList) c mem⟩
  have call : IsArgument ';' "f(a;b)".toList :=
    ⟨.plain (by decide) (by decide) (by decide) (.group inside .nil), by decide, by decide⟩
  have empty : IsArgument ';' [] := ⟨.nil, by decide, by decide⟩
  have name : IsArgument ';' ['c'] :=
    ⟨.plain (by decide) (by decide) (by decide) .nil, by decide, by decide⟩
  have semicolons := (splitArguments_eq_iff (by decide) (by decide) (by decide)).mpr
    ⟨enumerates_join (List.cons_ne_nil _ _) (by decide : ∀ c ∈ [' '], isBlank c = true)
      (by decide : ∀ c ∈ [' '], isBlank c = true),
      List.forall_mem_cons.mpr ⟨call, List.forall_mem_cons.mpr ⟨empty,
        List.forall_mem_singleton.mpr name⟩⟩⟩
  have alone : splitArguments (· == ',') "f(a;b) ;  ; c".toList = ["f(a;b) ;  ; c".toList] := by
    decide
  exact ⟨semicolons, (splitArguments_eq_iff (by decide) (by decide) (by decide)).mp
    ⟨semicolons.1, alone⟩⟩

end Arguments

end Haulage
