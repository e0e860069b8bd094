/-
# Formulas with a hole

A `Template` is a formula in which a literal is left open, as often as it stands there, and
`Template.fill s` puts `s` between the quotes.  Bodies, arguments and heads are cut out of texts, not
of templates, and a literal is cut like anything else.  But where the parentheses of `s` match and no
semicolon stands outside them, counting passes over the literal as a whole, whichever `s` it is.  So
a body is closed at the same place of every filling, and its arguments are the fillings of the same
templates (`Template.closesAlike`); and a head ends in front of a hole, since a quote is neither
letter nor blank (`Template.headNamed_fill`).
-/
import Haulage.Proofs.Shorthand.Head
import Haulage.Proofs.Shorthand.Grouping

namespace Haulage

/-- A formula with holes: at every place a character, or a literal that is left open. -/
abbrev Template := List (Option Char)

namespace Template

/-- What stands at one place when a text is put in the holes. -/
def place (s : Text) : Option Char → Text
  | some c => [c]
  | none => '"' :: (s ++ ['"'])

/-- The formula with a text between the quotes of each hole. -/
def fill (s : Text) (z : Template) : Text := z.flatMap (place s)

section Filling

variable {s : Text} {z : Template}

@[simp] theorem place_some (s : Text) (c : Char) : place s (some c) = [c] := rfl

@[simp] theorem fill_nil (s : Text) : fill s [] = [] := rfl

@[simp] theorem fill_cons (s : Text) (k : Option Char) (z : Template) :
    fill s (k :: z) = place s k ++ fill s z := rfl

@[simp] theorem fill_append (s : Text) (x y : Template) : fill s (x ++ y) = fill s x ++ fill s y :=
  List.flatMap_append

/-- A text is a template without holes. -/
@[simp] theorem fill_map_some (s t : Text) : fill s (t.map some) = t := by
  induction t with
  | nil => rfl
  | cons c t ih => rw [List.map_cons, fill_cons, ih, place_some, List.singleton_append]

@[simp] theorem isEmpty_fill (s : Text) (z : Template) : (fill s z).isEmpty = z.isEmpty := by
  rcases z with _ | ⟨_ | c, z⟩ <;> rfl

theorem quote_mem_fill (hole : none ∈ z) (s : Text) : '"' ∈ fill s z :=
  List.mem_flatMap.mpr ⟨none, hole, List.mem_cons_self⟩

theorem exists_text (whole : none ∉ z) : ∃ t : Text, z = t.map some := by
  induction z with
  | nil => exact ⟨[], rfl⟩
  | cons k z ih =>
    obtain ⟨first, others⟩ := not_or.mp (mt List.mem_cons.mpr whole)
    obtain ⟨t, rfl⟩ := ih others
    obtain ⟨c, rfl⟩ := Option.ne_none_iff_exists'.mp (Ne.symm first)
    exact ⟨c :: t, rfl⟩

/-- What a filling begins with, up to a character that is no quote, the template begins with. -/
theorem exists_of_fill_eq {u v : Text} {d : Char} (h : fill s z = u ++ d :: v) (plain : '"' ∉ u)
    (other : d ≠ '"') : ∃ rest, z = u.map some ++ some d :: rest := by
  induction u generalizing z with
  | nil =>
    rcases z with _ | ⟨_ | c, z⟩
    · cases h
    · exact absurd (List.cons.inj h).1.symm other
    · obtain ⟨rfl, -⟩ := List.cons.inj h
      exact ⟨z, rfl⟩
  | cons e u ih =>
    obtain ⟨first, others⟩ := not_or.mp (mt List.mem_cons.mpr plain)
    rcases z with _ | ⟨_ | c, z⟩
    · cases h
    · exact absurd (List.cons.inj h).1 first
    · obtain ⟨rfl, behind⟩ := List.cons.inj h
      obtain ⟨rest, rfl⟩ := ih behind others
      exact ⟨rest, rfl⟩

end Filling

/-! ## 1. Blanks at the ends -/

/-- Is there a blank at the place? -/
def isBlankPlace : Option Char → Bool
  | some c => isBlank c
  | none => false

/-- The template without the blanks at its two ends. -/
def strip (z : Template) : Template :=
  ((z.dropWhile isBlankPlace).reverse.dropWhile isBlankPlace).reverse

theorem dropWhile_fill (s : Text) (z : Template) :
    (fill s z).dropWhile isBlank = fill s (z.dropWhile isBlankPlace) := by
  induction z with
  | nil => rfl
  | cons k z ih =>
    cases k with
    | none =>
      have quote : isBlank '"' = false := by decide
      simp [place, isBlankPlace, quote]
    | some c =>
      rw [fill_cons, place_some, List.singleton_append, List.dropWhile_cons, List.dropWhile_cons,
        ih]
      cases blank : isBlank c <;> simp [isBlankPlace, blank, place]

theorem reverse_fill (s : Text) (z : Template) : (fill s z).reverse = fill s.reverse z.reverse := by
  induction z with
  | nil => rfl
  | cons k z ih =>
    have turned : (place s k).reverse = place s.reverse k := by cases k <;> simp [place]
    rw [fill_cons, List.reverse_append, ih, turned, List.reverse_cons, fill_append, fill_cons,
      fill_nil, List.append_nil]

/-- A literal is no blank, whatever it says. -/
theorem strip_fill (s : Text) (z : Template) : (fill s z).strip = fill s (strip z) := by
  rw [Text.strip, Text.stripLeft, Text.stripRight, dropWhile_fill, reverse_fill, dropWhile_fill,
    reverse_fill, List.reverse_reverse, strip]

/-! ## 2. Bodies and their arguments -/

section Bodies

variable {s : Text}

/-- The parts between semicolons, where they were cut in a template. -/
theorem map_prefixFirst (s : Text) (x : Template) (parts : List Template) :
    (prefixFirst x parts).map (fill s) = prefixFirst (fill s x) (parts.map (fill s)) := by
  cases parts <;> simp [prefixFirst]

/-- A literal is grouped if what stands in it is. -/
theorem grouped_literal {p : Char → Prop} (quote : p '"') (h : Grouped p s) :
    Grouped p (place s none) :=
  .plain quote (by decide) (by decide) (h.append (.plain quote (by decide) (by decide) .nil))

/-- Whatever stands in the holes, the place goes on with the body and with the part of it, and so
many parentheses are open behind it. -/
structure Passes (k : Option Char) (depth depth' : Nat) : Prop where
  body : ∀ s, Grouped (· ≠ ';') s → ∀ t,
    bodyOf? depth (place s k ++ t) = (bodyOf? depth' t).map (place s k ++ ·)
  part : ∀ s, Grouped (· ≠ ';') s → ∀ t, splitAtDepth (· == ';') depth (place s k ++ t) =
    prefixFirst (place s k) (splitAtDepth (· == ';') depth' t)

/-- Counting passes over a literal. -/
theorem passes_hole (depth : Nat) : Passes none depth depth where
  body _ grouped t := (grouped_literal (by decide) grouped).bodyOf?_append depth t
  part _ grouped t := (grouped_literal (by decide) grouped).splitAtDepth_append (by decide)
    (Int.natCast_nonneg depth) (fun _ _ other => by simpa using other) t

theorem passes_open (depth : Nat) : Passes (some '(') depth (depth + 1) where
  body _ _ _ := rfl
  part _ _ _ := splitAtDepth_cons (by simp)

theorem passes_close (depth : Nat) : Passes (some ')') (depth + 1) depth where
  body _ _ _ := rfl
  part _ _ t := by
    have back : depthAfter ((depth + 1 : Nat) : Int) ')' = depth := by simp [depthAfter]
    rw [place_some, List.singleton_append, splitAtDepth_cons (by simp), back]

theorem passes_plain {c : Char} {depth : Nat} (notOpen : c ≠ '(') (notClose : c ≠ ')')
    (inside : c = ';' → depth ≠ 0) : Passes (some c) depth depth where
  body _ _ t := by simp [place, bodyOf?, notOpen, notClose]
  part _ _ t := by
    have same : depthAfter depth c = depth := by simp [depthAfter, notOpen, notClose]
    rw [place_some, List.singleton_append, splitAtDepth_cons, same]
    rw [same]
    by_cases semicolon : c = ';'
    · simp [inside semicolon]
    · simp [semicolon]

/-- In every filling the body is closed at this parenthesis, and its parts between semicolons are
the fillings of these templates. -/
structure ClosesAt (depth : Nat) (z b r : Template) (parts : List Template) : Prop where
  whole : z = b ++ some ')' :: r
  body : ∀ s, Grouped (· ≠ ';') s → bodyOf? depth (fill s z) = some (fill s b)
  parts : ∀ s, Grouped (· ≠ ';') s →
    splitAtDepth (· == ';') depth (fill s b) = parts.map (fill s)

/-- In every filling or in none. -/
def ClosesAlike (depth : Nat) (z : Template) : Prop :=
  (∀ s, Grouped (· ≠ ';') s → bodyOf? depth (fill s z) = none) ∨
    ∃ b r parts, ClosesAt depth z b r parts

theorem Passes.closesAlike {k : Option Char} {depth depth' : Nat} {z : Template}
    (h : Passes k depth depth') (more : ClosesAlike depth' z) : ClosesAlike depth (k :: z) := by
  rcases more with none | ⟨b, r, parts, cut⟩
  · refine .inl fun s grouped => ?_
    rw [fill_cons, h.body s grouped, none s grouped, Option.map_none]
  · refine .inr ⟨k :: b, r, prefixFirst [k] parts, ?_, fun s grouped => ?_, fun s grouped => ?_⟩
    · rw [cut.whole, List.cons_append]
    · rw [fill_cons, h.body s grouped, cut.body s grouped, Option.map_some, fill_cons]
    · rw [fill_cons, h.part s grouped, cut.parts s grouped, map_prefixFirst, fill_cons, fill_nil,
        List.append_nil]

/-- A semicolon outside all parentheses ends a part. -/
theorem ClosesAlike.separator {z : Template} (more : ClosesAlike 0 z) :
    ClosesAlike 0 (some ';' :: z) := by
  have body (t : Text) : bodyOf? 0 (';' :: t) = (bodyOf? 0 t).map (';' :: ·) := rfl
  rcases more with none | ⟨b, r, parts, cut⟩
  · refine .inl fun s grouped => ?_
    rw [fill_cons, place_some, List.singleton_append, body, none s grouped, Option.map_none]
  · refine .inr ⟨some ';' :: b, r, [] :: parts, ?_, fun s grouped => ?_, fun s grouped => ?_⟩
    · rw [cut.whole, List.cons_append]
    · rw [fill_cons, place_some, List.singleton_append, body, cut.body s grouped, Option.map_some,
        fill_cons, place_some, List.singleton_append]
    · rw [fill_cons, place_some, List.singleton_append, List.map_cons, fill_nil,
        ← cut.parts s grouped]
      exact splitAtSemicolon_cons _

/-- **A body is closed in every filling or in none**, and lists the same arguments. -/
theorem closesAlike (z : Template) (depth : Nat) : ClosesAlike depth z := by
  induction z generalizing depth with
  | nil => exact .inl fun _ _ => rfl
  | cons k z ih =>
    cases k with
    | none => exact (passes_hole depth).closesAlike (ih depth)
    | some c =>
      by_cases opens : c = '('
      · subst opens
        exact (passes_open depth).closesAlike (ih _)
      · by_cases closes : c = ')'
        · subst closes
          cases depth with
          | zero => exact .inr ⟨[], z, [[]], rfl, fun _ _ => rfl, fun _ _ => rfl⟩
          | succ depth => exact (passes_close depth).closesAlike (ih depth)
        · by_cases separates : c = ';' ∧ depth = 0
          · obtain ⟨rfl, rfl⟩ := separates
            exact (ih 0).separator
          · exact (passes_plain opens closes fun semicolon zero =>
              separates ⟨semicolon, zero⟩).closesAlike (ih depth)

theorem ClosesAt.semicolonArguments {z b r : Template} {parts : List Template}
    (h : ClosesAt 0 z b r parts) (grouped : Grouped (· ≠ ';') s) :
    semicolonArguments (fill s b) = (parts.map strip).map (fill s) := by
  have whole : splitAtDepth (· == ';') 0 (fill s b) = parts.map (fill s) := h.parts s grouped
  rw [Haulage.semicolonArguments, splitArguments, whole, List.map_map, List.map_map]
  exact List.map_congr_left fun x _ => strip_fill s x

end Bodies

/-! ## 3. Heads -/

theorem quote_notMem_front {name word front : Text} (h : IsFront name word front)
    (sn : ShorthandName name) : '"' ∉ front := fun mem =>
  (h.mem sn '"' mem).elim (fun letter => absurd letter (by decide))
    fun blank => absurd blank (by decide)

/-- **A head begins in every filling or in none**, and ends in front of the next hole. -/
theorem headNamed_fill {name : Text} (sn : ShorthandName name) (before : Option Char) (c : Char)
    (z : Template) : (∀ s, headNamed name before c (fill s z) = none) ∨
      ∃ word front inside, some c :: z = front.map some ++ some '(' :: inside ∧
        IsFront name word front ∧
        ∀ s, headNamed name before c (fill s z) = some ⟨word, front.length + 1⟩ := by
  by_cases begins : inWord before = false ∧ ∃ word front inside,
      some c :: z = front.map some ++ some '(' :: inside ∧ IsFront name word front
  · obtain ⟨outside, word, front, inside, whole, isFront⟩ := begins
    refine .inr ⟨word, front, inside, whole, isFront, fun s => ?_⟩
    refine (headNamed_eq_some_iff sn).mpr ⟨outside, word, front, fill s inside, ?_, isFront, rfl⟩
    simpa [place] using congrArg (fill s) whole
  · refine .inl fun s => Option.eq_none_iff_forall_ne_some.mpr fun h found => begins ?_
    obtain ⟨outside, word, front, inside, whole, isFront, -⟩ := (headNamed_eq_some_iff sn).mp found
    have filled : fill s (some c :: z) = front ++ '(' :: inside := whole
    obtain ⟨rest, cut⟩ := exists_of_fill_eq filled (quote_notMem_front isFront sn) (by decide)
    exact ⟨outside, word, front, rest, cut, isFront⟩

end Template

end Haulage
