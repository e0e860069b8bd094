/-
# Where the text literals of a formula stand

Two readers tell text literals from the rest of a formula.  The lexer cuts the formula into tokens and
knows what each of them is.  The search for text literals knows quotes and backslashes only; inlining
and the names in a formula rest on it.  `LaidOut` says where the lexer puts its tokens and how each of
them is spelled, so that the places of its text literals can be compared with what the search finds.

Both let a backslash take the next character with it, but to the search that must not be a line break.
Where one literal has such a line break in it, the search does not close it.  It goes on behind the
opening quote, and takes the closing one for another opening.  So the two agree on a formula exactly if
no text literal of the lexer has a line break behind a backslash, and then the search cuts the formula
into its literals and what is between them, and changes or blanks out just that
(`textLiterals_agree_iff`).
-/
import Haulage.Proofs.Substitution.Rewriting

namespace Haulage

open Lexer (Spells)

/-! ## 1. Tokens at their places -/

namespace Lexer

/-- Behind so many characters, is the text made of the tokens, each at its place and spelled like that,
with only blanks around them? -/
inductive LaidOut : Nat → Text → List (Token × Text) → Prop
  | nil {place : Nat} : LaidOut place [] []
  | blank {place : Nat} {c : Char} {cs : Text} {ts : List (Token × Text)} (blank : isBlank c = true)
      (more : LaidOut (place + 1) cs ts) : LaidOut place (c :: cs) ts
  | token {place : Nat} {sp rest : Text} {l : Lexeme} {ts : List (Token × Text)}
      (spells : Spells sp l rest) (more : LaidOut (place + sp.length) rest ts) :
      LaidOut place (sp ++ rest) ((⟨l, place⟩, sp) :: ts)

/-- **The lexer lays a text out as its tokens.** -/
theorem exists_laidOut_of_scanFrom {place : Nat} {s : Text} {scanned : Scanned}
    (h : scanFrom place s = .ok scanned) :
    ∃ ts, LaidOut place s ts ∧ ts.map Prod.fst = scanned.tokens := by
  fun_induction scanFrom place s generalizing scanned with
  | case1 place =>
    obtain rfl : (⟨[], place⟩ : Scanned) = scanned := by simpa using h
    exact ⟨[], .nil, rfl⟩
  | case2 place c cs blank ih =>
    obtain ⟨ts, laid, tokens⟩ := ih h
    exact ⟨ts, .blank blank laid, tokens⟩
  | case3 => simp at h
  | case4 => simp at h
  | case5 place c cs blank t read scanned' run ih =>
    obtain rfl : _ = scanned := by simpa using h
    obtain ⟨l, sp, rest, rfl, rfl, spells⟩ := exists_spells_of_readToken read
    obtain ⟨ts, laid, tokens⟩ := ih run
    exact ⟨_, .token spells laid, congrArg _ tokens⟩

/-- A text is cut into the tokens that it is laid out as. -/
theorem LaidOut.lexes {place : Nat} {s : Text} {ts : List (Token × Text)} (h : LaidOut place s ts) :
    Lexes s (ts.map fun t => t.1.lexeme) := by
  induction h with
  | nil => exact .nil
  | blank blank _ ih => exact .blank blank ih
  | token spells _ ih => exact .token spells ih

/-- **There is one way** to lay a text out. -/
theorem LaidOut.unique {place : Nat} {s : Text} {ts ts' : List (Token × Text)}
    (h : LaidOut place s ts) (h' : LaidOut place s ts') : ts = ts' := by
  induction h generalizing ts' with
  | nil =>
    generalize empty : ([] : Text) = s at h'
    cases h' with
    | nil => rfl
    | blank => cases empty
    | token spells => exact absurd (List.append_eq_nil_iff.mp empty.symm).1 spells.ne_nil
  | @blank place c cs ts blank _ ih =>
    generalize whole : c :: cs = s at h'
    cases h' with
    | nil => cases whole
    | blank _ more =>
      cases whole
      exact ih more
    | token spells =>
      obtain ⟨d, ds, rfl⟩ := List.exists_cons_of_ne_nil spells.ne_nil
      obtain ⟨rfl, -⟩ := List.cons.inj whole
      exact absurd blank (Bool.eq_false_iff.mp spells.isBlank)
  | @token place sp rest l ts spells _ ih =>
    obtain ⟨c, cs, rfl⟩ := List.exists_cons_of_ne_nil spells.ne_nil
    generalize whole : c :: cs ++ rest = s at h'
    cases h' with
    | nil => cases whole
    | blank blank =>
      obtain ⟨rfl, -⟩ := List.cons.inj whole
      exact absurd blank (Bool.eq_false_iff.mp spells.isBlank)
    | token spells' more =>
      obtain ⟨d, ds, rfl⟩ := List.exists_cons_of_ne_nil spells'.ne_nil
      obtain ⟨rfl, behind⟩ : c = d ∧ cs ++ rest = ds ++ _ := List.cons.inj whole
      have same := spells.readToken place
      rw [behind, spells'.readToken place] at same
      cases same
      rw [ih more]

/-- The text literals among the tokens, each with its place and as it is spelled. -/
def textSpans (ts : List (Token × Text)) : List (Nat × Text) :=
  ts.filterMap fun (t, spelling) =>
    match t.lexeme with
    | .text _ => some (t.position, spelling)
    | _ => none

theorem textSpans_cons_text (place : Nat) (s sp : Text) (ts : List (Token × Text)) :
    textSpans ((⟨.text s, place⟩, sp) :: ts) = (place, sp) :: textSpans ts := rfl

theorem textSpans_cons_other {l : Lexeme} (other : ∀ t, l ≠ .text t) (place : Nat) (sp : Text)
    (ts : List (Token × Text)) : textSpans ((⟨l, place⟩, sp) :: ts) = textSpans ts := by
  cases l with
  | text t => exact absurd rfl (other t)
  | number | name | symbol => rfl

end Lexer

open Lexer (LaidOut textSpans)

/-! ## 2. One literal -/

/-- Does a backslash of the text, read from left to right, take a line break with it? -/
def Text.escapesBreak : Text → Bool
  | '\\' :: c :: cs => c == '\n' || Text.escapesBreak cs
  | _ :: cs => Text.escapesBreak cs
  | [] => false

theorem Text.escapesBreak_cons {c : Char} (h : c ≠ '\\') (cs : Text) :
    Text.escapesBreak (c :: cs) = Text.escapesBreak cs := by
  rw [Text.escapesBreak]
  rintro _ _ rfl -
  exact h rfl

/-- **Search and lexer end a literal at the same quote**, except where a line break stands behind a
backslash; there the search does not end it at all. -/
theorem literalLength?_of_readQuoted? {cs s rest : Text}
    (h : Lexer.readQuoted? (cs ++ rest) = some (s, rest)) :
    literalLength? (cs ++ rest) = if Text.escapesBreak cs then none else some cs.length := by
  have ends {w s rest : Text} (h : Lexer.readQuoted? w = some (s, rest)) : ∃ cs, w = cs ++ rest ∧
      literalLength? w = if Text.escapesBreak cs then none else some cs.length := by
    fun_induction Lexer.readQuoted? w generalizing s rest with
    | case1 => cases h
    | case2 cs =>
      cases h
      exact ⟨['"'], rfl, rfl⟩
    | case3 c cs ih =>
      obtain ⟨⟨s', rest'⟩, read, whole⟩ := Option.map_eq_some_iff.mp h
      cases whole
      obtain ⟨front, rfl, length⟩ := ih read
      refine ⟨'\\' :: c :: front, rfl, ?_⟩
      rw [literalLength?, length, Text.escapesBreak]
      cases c == '\n' <;> cases Text.escapesBreak front <;> rfl
    | case4 c cs quote escape ih =>
      obtain ⟨⟨s', rest'⟩, read, whole⟩ := Option.map_eq_some_iff.mp h
      cases whole
      obtain ⟨front, rfl, length⟩ := ih read
      have plain : c ≠ '\\' := by
        rintro rfl
        cases whole : front ++ rest with
        | nil => rw [whole] at read; cases read
        | cons d ds => exact escape d ds rfl whole
      refine ⟨c :: front, rfl, ?_⟩
      rw [literalLength?.eq_5 _ _ quote (fun _ _ h => absurd h plain) fun h => absurd h plain, length,
        Text.escapesBreak_cons plain]
      cases Text.escapesBreak front <;> rfl
  obtain ⟨front, whole, length⟩ := ends h
  rwa [← List.append_cancel_right whole] at length

/-- At a literal of the lexer the search finds it, or nothing. -/
theorem textLiterals_of_readQuoted? {cs s rest : Text}
    (h : Lexer.readQuoted? (cs ++ rest) = some (s, rest)) (before : Option Char) :
    textLiterals before '"' (cs ++ rest) =
      if Text.escapesBreak cs then none else some ⟨cs.length, '"' :: cs⟩ := by
  rw [textLiterals, literalLength?_of_readQuoted? h]
  cases Text.escapesBreak cs with
  | true => rfl
  | false => simp

/-! ## 3. All literals -/

section Places

variable {before : Option Char} {place : Nat} {s : Text} {ts : List (Token × Text)}

/-- **The search finds what the lexer does** exactly if no literal has a line break behind a backslash.
One literal that is not found is enough, for nothing else begins at its place. -/
theorem placesFrom_textLiterals_iff (h : LaidOut place s ts) :
    Finder.placesFrom place (textLiterals.piecesFrom before 0 s) = textSpans ts ↔
      ∀ span ∈ textSpans ts, Text.escapesBreak span.2 = false := by
  induction h generalizing before with
  | nil => exact iff_of_true rfl (List.forall_mem_nil _)
  | @blank place c cs ts blank _ ih =>
    have other : c ≠ '"' := by
      rintro rfl
      exact absurd blank (by decide)
    rw [Finder.piecesFrom, textLiterals_eq_none other]
    exact ih
  | @token place sp rest l ts spells _ ih =>
    by_cases text : ∃ t, l = .text t
    · obtain ⟨t, rfl⟩ := text
      cases spells with
      | @text cs _ _ read =>
        have found := textLiterals_of_readQuoted? read before
        rw [Lexer.textSpans_cons_text, List.forall_mem_cons, Text.escapesBreak_cons (by decide)]
        cases broken : Text.escapesBreak cs with
        | false =>
          rw [broken] at found
          rw [Finder.piecesFrom_of_found found, Finder.placesFrom, List.cons_inj_right]
          simpa using ih
        | true =>
          rw [broken] at found
          refine iff_of_false (fun same => ?_) (fun unbroken => absurd unbroken.1 (by decide))
          rw [List.cons_append, Finder.piecesFrom, found] at same
          have first : (place, '"' :: cs) ∈ Finder.placesFrom (place + 1)
              (textLiterals.piecesFrom (some '"') 0 (cs ++ rest)) := same ▸ List.mem_cons_self
          exact absurd (le_of_mem_placesFrom first) (Nat.not_succ_le_self place)
    · have other := not_exists.mp text
      rw [Lexer.textSpans_cons_other other, Finder.piecesFrom_append_of_quiet
        (quiet_textLiterals (quote_not_mem_of_spells spells other) before rest),
        placesFrom_kept_append]
      exact ih

end Places

/-! ## 4. What is between the literals -/

/-- The stretches of a text that begins at a place, if its literals are those. -/
def stretchesAt (place : Nat) (s : Text) : List (Nat × Text) → List Segment
  | [] => stretchOf s
  | (start, literal) :: spans =>
    stretchOf (s.take (start - place)) ++ .quoted literal ::
      stretchesAt (start + literal.length) (s.drop (start - place + literal.length)) spans

/-- A text that begins at a place begins with what is in front of its first literal, and the literal. -/
theorem stretchesAt_append (place : Nat) (x literal rest : Text) (spans : List (Nat × Text)) :
    stretchesAt place (x ++ (literal ++ rest)) ((place + x.length, literal) :: spans) =
      stretchOf x ++ .quoted literal ::
        stretchesAt (place + x.length + literal.length) rest spans := by
  have size : x.length + literal.length = (x ++ literal).length := by simp
  rw [stretchesAt, Nat.add_sub_cancel_left, List.take_left, size, ← List.append_assoc, List.drop_left]

/-- What is found takes its own characters off the text. -/
theorem exists_append_of_textLiterals {before : Option Char} {c : Char} {cs : Text} {f : Find Text}
    (found : textLiterals before c cs = some f) :
    ∃ body rest, cs = body ++ rest ∧ f = ⟨body.length, c :: body⟩ := by
  rw [textLiterals] at found
  split at found
  · obtain ⟨n, length, rfl⟩ := Option.map_eq_some_iff.mp found
    refine ⟨cs.take n, cs.drop n, (List.take_append_drop n cs).symm, ?_⟩
    rw [List.length_take_of_le (le_of_literalLength? length)]
  · cases found

/-- **The stretches of a formula are those between the literals that are found.**  `x` is the part of a
stretch that was already passed. -/
theorem joinPieces_eq_stretchesAt (before : Option Char) (place : Nat) (x s : Text) :
    joinPieces (x.map .kept ++ textLiterals.piecesFrom before 0 s) =
      stretchesAt place (x ++ s)
        (Finder.placesFrom (place + x.length) (textLiterals.piecesFrom before 0 s)) := by
  induction size : s.length using Nat.strong_induction_on generalizing before place x s with
  | _ length ih =>
  subst size
  cases s with
  | nil =>
    rw [Finder.piecesFrom, joinPieces_append_of_stretch x (by simp)]
    simp [Finder.placesFrom, joinPieces, stretchesAt]
  | cons c cs =>
    cases found : textLiterals before c cs with
    | none =>
      have longer := ih _ (Nat.lt_succ_self _) (some c) place (x ++ [c]) cs rfl
      rw [Finder.piecesFrom, found]
      simpa [Finder.placesFrom, Nat.add_assoc] using longer
    | some f =>
      obtain ⟨body, rest, rfl, rfl⟩ := exists_append_of_textLiterals found
      have pieces := Finder.piecesFrom_of_found found
      rw [List.cons_append] at pieces
      have shorter : rest.length < (c :: (body ++ rest)).length := by simp
      have more := ih _ shorter (lastOr before (c :: body))
        (place + x.length + (body.length + 1)) [] rest rfl
      rw [pieces, joinPieces_append_of_stretch x (by simp), joinPieces, Finder.placesFrom,
        ← List.cons_append, stretchesAt_append]
      exact congrArg _ (congrArg _ more)

theorem segments_eq_stretchesAt (s : Text) :
    segments s = stretchesAt 0 s (textLiterals.places s) :=
  joinPieces_eq_stretchesAt none 0 [] s

/-- The stretch, with a blank in place of a literal. -/
def Segment.blanked : Segment → Text
  | plain x => x
  | quoted _ => [' ']

theorem flatMap_joinPieces_kept (c : Char) (ps : List (Piece Text)) :
    (joinPieces (.kept c :: ps)).flatMap Segment.blanked =
      c :: (joinPieces ps).flatMap Segment.blanked := by
  rw [joinPieces]
  split
  · rename_i x gs stretches
    rw [stretches]
    rfl
  · rfl

/-- Blanking literals out puts a blank in place of every stretch that is one. -/
theorem blankLiterals_eq_flatMap (s : Text) :
    blankLiterals s = (segments s).flatMap Segment.blanked := by
  have pieces (before : Option Char) (skip : Nat) (s : Text) :
      (Finder.piecesFrom (fun before c cs =>
          (textLiterals before c cs).map fun f => ⟨f.more, [' ']⟩) before skip s).flatMap Piece.text =
        (joinPieces (textLiterals.piecesFrom before skip s)).flatMap Segment.blanked := by
    induction s generalizing before skip with
    | nil => simp [Finder.piecesFrom, joinPieces]
    | cons c cs ih =>
      cases skip with
      | succ skip => exact ih (some c) skip
      | zero =>
        rw [Finder.piecesFrom, Finder.piecesFrom]
        cases textLiterals before c cs with
        | none =>
          rw [flatMap_joinPieces_kept, ← ih]
          rfl
        | some f =>
          rw [joinPieces, List.flatMap_cons, ← ih]
          rfl
  exact pieces none 0 s

/-! ## 5. The two readers -/

/-- **Where search and lexer agree.**  A text that the lexer reads is laid out as its tokens.  What the
search finds in it, from left to right, are its text tokens, each from the opening to the closing
quote, exactly if in none of them a line break stands behind a backslash that takes it with it.  Then
whatever is changed outside literals, all the text tokens stay and what is between them is changed, and
what is blanked out are the text tokens. -/
theorem textLiterals_agree_iff {s : Text} {scanned : Lexer.Scanned}
    (accepted : Lexer.scan s = .ok scanned) :
    ∃ ts, LaidOut 0 s ts ∧ ts.map Prod.fst = scanned.tokens ∧
      (textLiterals.places s = textSpans ts ↔
        ∀ span ∈ textSpans ts, Text.escapesBreak span.2 = false) ∧
      ((∀ span ∈ textSpans ts, Text.escapesBreak span.2 = false) →
        (∀ change, outsideLiterals change s =
          (stretchesAt 0 s (textSpans ts)).flatMap (Segment.changed change)) ∧
        blankLiterals s = (stretchesAt 0 s (textSpans ts)).flatMap Segment.blanked) := by
  obtain ⟨ts, laid, tokens⟩ := Lexer.exists_laidOut_of_scanFrom accepted
  have agree : textLiterals.places s = textSpans ts ↔ _ := placesFrom_textLiterals_iff laid
  refine ⟨ts, laid, tokens, agree, fun unbroken => ?_⟩
  have stretches : segments s = stretchesAt 0 s (textSpans ts) := by
    rw [segments_eq_stretchesAt, ← agree.mpr unbroken]
  exact ⟨fun change => by rw [outsideLiterals_eq_flatMap, stretches],
    by rw [blankLiterals_eq_flatMap, stretches]⟩

/-- A quote behind a backslash ends no literal, neither to the lexer nor to the search. -/
theorem textLiterals_agree_of_escaped_quote :
    let s := "\"a\\\"b\"+\"c\"".toList
    (∃ scanned, Lexer.scan s = .ok scanned) ∧
      textLiterals.places s = [(0, "\"a\\\"b\"".toList), (7, "\"c\"".toList)] ∧
      blankLiterals s = " + ".toList := by
  intro s
  have first : Spells "\"a\\\"b\"".toList (.text "a\"b".toList) "+\"c\"".toList :=
    @Spells.text "a\\\"b\"".toList _ _ rfl
  have plus : Spells ['+'] (.symbol (.operator .plus)) "\"c\"".toList :=
    .single rfl (by rintro _ ⟨⟩; rfl)
  have last : Spells "\"c\"".toList (.text ['c']) [] := @Spells.text ['c', '"'] _ _ rfl
  have laid : LaidOut 0 s [(⟨.text "a\"b".toList, 0⟩, "\"a\\\"b\"".toList),
      (⟨.symbol (.operator .plus), 6⟩, ['+']), (⟨.text ['c'], 7⟩, "\"c\"".toList)] :=
    .token first (.token plus (.token last .nil))
  obtain ⟨scanned, accepted, -⟩ := laid.lexes.scanFrom 0
  obtain ⟨ts, laid', -, agree, outside⟩ := textLiterals_agree_iff accepted
  obtain rfl := laid.unique laid'
  have unbroken := agree.mpr (by decide)
  refine ⟨⟨scanned, accepted⟩, unbroken, (outside (by decide)).2.trans (by decide)⟩

/-- Behind a line break that a backslash takes with it, the search misses the end of the literal. -/
example : textLiterals.places "\"\\\nb\"".toList = [] := by decide

end Haulage
