/-
# What inlining may do to a text

The search for names and the search for decimal commas know nothing of tokens.  `Inlines` says what
the two may do at most: a character stays, a comma between two digits becomes a point, and a whole
word that is the name of a datum becomes its literal.  It does not say where text literals are, so
that it holds also where the search takes another stretch for a literal than the lexer does, and no
backslash has to be excluded.

`inlines_inlineLiterals` says that inlining does nothing else.  What is rewritten can be cut at any
place where no word goes on (`Inlines.split`), and this is what an induction over the lexemes needs.
-/
import Haulage.Proofs.Substitution
import Haulage.Proofs.Text.Words

namespace Haulage

/-! ## 1. Rewriting -/

/-- Between a character in front of it and a text behind it, may the text become the other one? -/
inductive Inlines (data : List (Text × Datum)) : Option Char → Text → Text → Text → Prop
  | nil {before : Option Char} {rest : Text} : Inlines data before [] rest []
  | keep {before : Option Char} {c : Char} {x rest t : Text} (more : Inlines data (some c) x rest t) :
      Inlines data before (c :: x) rest (c :: t)
  | comma {before : Option Char} {x rest t : Text} (digit : before.any isDecimalDigit = true)
      (digit' : (x ++ rest).head?.any isDecimalDigit = true)
      (more : Inlines data (some ',') x rest t) : Inlines data before (',' :: x) rest ('.' :: t)
  | name {before : Option Char} {c : Char} {cs x rest t : Text} {d : Datum}
      (found : data.lookup (c :: cs) = some d) (outside : inWord before = false)
      (stop : inWord (x ++ rest).head? = false) (more : Inlines data (lastOr (some c) cs) x rest t) :
      Inlines data before (c :: (cs ++ x)) rest (d.literal ++ t)

namespace Inlines

variable {data : List (Text × Datum)} {before : Option Char} {x y rest t u : Text}

theorem append (hx : Inlines data before x (y ++ rest) t)
    (hy : Inlines data (lastOr before x) y rest u) : Inlines data before (x ++ y) rest (t ++ u) := by
  generalize behind : y ++ rest = r at hx
  induction hx with
  | nil => exact hy
  | keep _ ih =>
    rw [lastOr_cons] at hy
    exact .keep (ih hy behind)
  | comma digit digit' _ ih =>
    rw [lastOr_cons] at hy
    refine .comma digit ?_ (ih hy behind)
    subst behind
    rwa [← List.append_assoc] at digit'
  | @name before c cs x _ t d found outside stop _ ih =>
    rw [lastOr_cons, lastOr_append] at hy
    rw [List.cons_append, List.append_assoc, List.append_assoc]
    refine .name found outside ?_ (ih hy behind)
    subst behind
    rwa [← List.append_assoc] at stop

/-- A text may stay as it is. -/
theorem keep_append (h : Inlines data (lastOr before x) y rest t) :
    Inlines data before (x ++ y) rest (x ++ t) := by
  induction x generalizing before with
  | nil => exact h
  | cons c x ih =>
    rw [lastOr_cons] at h
    exact .keep (ih h)

/-- What may become of a text at the end may become of it in front of another one. -/
theorem extend (h : Inlines data before x [] t) (stop : inWord rest.head? = false) :
    Inlines data before x rest t := by
  generalize behind : ([] : Text) = r at h
  induction h with
  | nil => exact .nil
  | keep _ ih => exact .keep (ih behind)
  | @comma _ x _ _ digit digit' _ ih =>
    subst behind
    refine .comma digit ?_ (ih rfl)
    cases x with
    | nil => cases digit'
    | cons c x => exact digit'
  | @name _ _ _ x _ _ _ found outside stop' _ ih =>
    subst behind
    refine .name found outside ?_ (ih rfl)
    cases x with
    | nil => exact stop
    | cons c x => exact stop'

/-- What may become of a text alone may become of it between others where no word goes on. -/
theorem frame (h : Inlines data none x [] t) (outside : inWord before = false)
    (stop : inWord rest.head? = false) : Inlines data before x rest t := by
  cases h.extend stop with
  | nil => exact .nil
  | keep more => exact .keep more
  | comma digit => cases digit
  | name found _ stop more => exact .name found outside stop more

/-- A place where no word goes on is not inside a word. -/
theorem exists_behind_word {c : Char} {cs w : Text} (word : ∀ d ∈ c :: cs, isNameChar d = true)
    (between : inWord (lastOr before (c :: x)) = false ∨ inWord (y ++ rest).head? = false)
    (whole : x ++ y = cs ++ w) : ∃ a, x = cs ++ a ∧ w = a ++ y := by
  rcases List.append_eq_append_iff.mp whole with ⟨a, rfl, rfl⟩ | ⟨a, rfl, rfl⟩
  · cases a with
    | nil => exact ⟨[], by simp, rfl⟩
    | cons a as =>
      obtain ⟨b, last, mem⟩ : ∃ b, lastOr before (c :: x) = some b ∧ b ∈ c :: x := by
        rw [lastOr, List.getLast?_eq_some_getLast (List.cons_ne_nil c x)]
        exact ⟨_, rfl, List.getLast_mem _⟩
      have inside : isNameChar b = true := word b (List.mem_append_left (a :: as) mem)
      have inside' : isNameChar a = true := word a (by simp)
      simp [last, inside, inside'] at between
  · exact ⟨a, rfl, rfl⟩

/-- **What is rewritten can be cut** where no word goes on. -/
theorem split (names : ∀ entry ∈ data, IsName entry.1) (h : Inlines data before (x ++ y) rest t)
    (between : inWord (lastOr before x) = false ∨ inWord (y ++ rest).head? = false) :
    ∃ t₁ t₂, t = t₁ ++ t₂ ∧ Inlines data before x (y ++ rest) t₁ ∧
      Inlines data (lastOr before x) y rest t₂ := by
  generalize whole : x ++ y = w at h
  induction h generalizing x with
  | @nil before rest =>
    obtain ⟨rfl, rfl⟩ := List.append_eq_nil_iff.mp whole
    exact ⟨[], [], rfl, .nil, .nil⟩
  | @keep before c w rest t more ih =>
    cases x with
    | nil =>
      obtain rfl : y = c :: w := whole
      exact ⟨[], c :: t, rfl, .nil, .keep more⟩
    | cons d x =>
      obtain ⟨rfl, inner⟩ : d = c ∧ x ++ y = w := by simpa using whole
      rw [lastOr_cons] at between ⊢
      obtain ⟨t₁, t₂, rfl, hx, hy⟩ := ih between inner
      exact ⟨d :: t₁, t₂, rfl, .keep hx, hy⟩
  | @comma before w rest t digit digit' more ih =>
    cases x with
    | nil =>
      obtain rfl : y = ',' :: w := whole
      exact ⟨[], '.' :: t, rfl, .nil, .comma digit digit' more⟩
    | cons d x =>
      obtain ⟨rfl, rfl⟩ : d = ',' ∧ x ++ y = w := by simpa using whole
      rw [lastOr_cons] at between ⊢
      obtain ⟨t₁, t₂, rfl, hx, hy⟩ := ih between rfl
      exact ⟨'.' :: t₁, t₂, rfl, .comma digit (by rwa [← List.append_assoc]) hx, hy⟩
  | @name before c cs w rest t d found outside stop more ih =>
    cases x with
    | nil =>
      obtain rfl : y = c :: (cs ++ w) := whole
      exact ⟨[], d.literal ++ t, rfl, .nil, .name found outside stop more⟩
    | cons e x =>
      obtain ⟨rfl, inner⟩ : e = c ∧ x ++ y = cs ++ w := by simpa using whole
      obtain ⟨a, rfl, rfl⟩ :=
        exists_behind_word (names _ (mem_of_lookup found)).all between inner
      rw [lastOr_cons, lastOr_append] at between ⊢
      obtain ⟨t₁, t₂, rfl, hx, hy⟩ := ih between rfl
      refine ⟨d.literal ++ t₁, t₂, by rw [List.append_assoc], ?_, hy⟩
      exact .name found outside (by rwa [← List.append_assoc]) hx

/-- A character that starts no name stays, or it is a decimal comma. -/
theorem cons_cases (names : ∀ entry ∈ data, IsName entry.1) {c : Char} (other : c.isAlpha = false)
    (h : Inlines data before (c :: x) rest t) : ∃ t', Inlines data (some c) x rest t' ∧
      (t = c :: t' ∨ c = ',' ∧ before.any isDecimalDigit = true ∧
        (x ++ rest).head?.any isDecimalDigit = true ∧ t = '.' :: t') := by
  generalize whole : c :: x = s at h
  cases h with
  | nil => cases whole
  | keep more =>
    cases whole
    exact ⟨_, more, .inl rfl⟩
  | comma digit digit' more =>
    cases whole
    exact ⟨_, more, .inr ⟨rfl, digit, digit', rfl⟩⟩
  | name found =>
    obtain ⟨_, _, first, letter, -⟩ := names _ (mem_of_lookup found)
    obtain ⟨rfl, -⟩ := List.cons.inj first
    obtain ⟨rfl, -⟩ := List.cons.inj whole
    rw [other] at letter
    cases letter

end Inlines

/-! ## 2. A stretch between literals -/

/-- What the search for decimal commas makes of a text behind a character. -/
def pointed (before : Option Char) (x : Text) : Text :=
  (decimalCommas.piecesFrom before 0 x).flatMap Piece.text

/-- A character stays, or it is a decimal comma. -/
theorem pointed_cons (before : Option Char) (c : Char) (cs : Text) :
    pointed before (c :: cs) = c :: pointed (some c) cs ∨
      (c = ',' ∧ before.any isDecimalDigit = true ∧ cs.head?.any isDecimalDigit = true ∧
        pointed before (c :: cs) = '.' :: pointed (some c) cs) := by
  rw [pointed, Finder.piecesFrom, decimalCommas]
  split_ifs with decimal
  · simp only [Bool.and_eq_true, beq_iff_eq] at decimal
    exact .inr ⟨decimal.1.1, decimal.1.2, decimal.2, rfl⟩
  · exact .inl rfl

theorem pointed_word_append {w : Text} (word : ∀ d ∈ w, isNameChar d = true) (before : Option Char)
    (x : Text) : pointed before (w ++ x) = w ++ pointed (lastOr before w) x := by
  induction w generalizing before with
  | nil => rfl
  | cons c w ih =>
    obtain ⟨first, more⟩ := List.forall_mem_cons.mp word
    rw [List.cons_append, List.cons_append, lastOr_cons, ← ih more]
    refine (pointed_cons before c (w ++ x)).resolve_right ?_
    rintro ⟨rfl, -⟩
    exact absurd first (by decide)

/-- No word begins where none did. -/
theorem inWord_head?_pointed {before : Option Char} {x : Text} (stop : inWord x.head? = false) :
    inWord (pointed before x).head? = false := by
  cases x with
  | nil => rfl
  | cons c x =>
    rcases pointed_cons before c x with same | ⟨-, -, -, point⟩
    · rwa [same]
    · rw [point]
      exact (by decide : isNameChar '.' = false)

section Stretches

variable {data : List (Text × Datum)} (names : ∀ entry ∈ data, IsName entry.1)

include names

/-- What is no start of a word stays. -/
theorem inlineNames_cons {before : Option Char} {c : Char}
    (h : c.isAlpha = false ∨ inWord before = true) (cs : Text) :
    inlineNames data before (c :: cs) = c :: inlineNames data (some c) cs := by
  have quiet : Quiet (namesIn (longestFirst (dataLiterals data))) before [c] cs :=
    ⟨namesIn_eq_none names h cs, trivial⟩
  exact inlineNames_append_of_quiet quiet

/-- **Both searches one after the other rewrite a stretch.** -/
theorem inlines_stretch (x : Text) {before before' : Option Char}
    (same : inWord before = inWord before') :
    Inlines data before x [] (inlineNames data before' (pointed before x)) := by
  induction x using Text.word_induction generalizing before before' with
  | nil => exact .nil
  | other c cs outside ih =>
    rcases pointed_cons before c cs with kept | ⟨rfl, digit, digit', point⟩
    · rw [kept, inlineNames_cons names (.inl (isAlpha_eq_false outside))]
      exact .keep (ih rfl)
    · rw [point, inlineNames_cons names (.inl (by decide))]
      exact .comma digit (by rwa [List.append_nil]) (ih (by decide))
  | word w z word stop ih =>
    obtain ⟨c, cs, rfl⟩ := List.exists_cons_of_ne_nil word.ne_nil
    have more : Inlines data (lastOr before (c :: cs)) z []
        (inlineNames data (lastOr before' (c :: cs)) (pointed (lastOr before (c :: cs)) z)) := by
      rw [lastOr_cons, lastOr_cons]
      exact ih rfl
    rw [pointed_word_append word.all]
    cases outside : inWord before' with
    | true =>
      rw [inlineNames_append_of_quiet (quiet_inside_word names word.all outside _)]
      exact more.keep_append
    | false =>
      rw [inlineNames_word names word.all outside (inWord_head?_pointed stop)]
      cases found : data.lookup (c :: cs) with
      | none => exact more.keep_append
      | some d =>
        refine .name found (same.trans outside) (by rwa [List.append_nil]) ?_
        rwa [lastOr_cons before] at more ⊢

end Stretches

/-! ## 3. The whole of a text -/

/-- A search that finds what stands there leaves the text as it is. -/
theorem Finder.flatMap_piecesFrom_of_faithful {find : Finder Text}
    (faithful : ∀ before c cs f, find before c cs = some f → f.content = c :: cs.take f.more)
    (before : Option Char) (skip : Nat) (s : Text) :
    (find.piecesFrom before skip s).flatMap Piece.text = s.drop skip := by
  induction s generalizing before skip with
  | nil => simp [piecesFrom]
  | cons c cs ih =>
    cases skip with
    | succ skip => rw [piecesFrom, ih, List.drop_succ_cons]
    | zero =>
      rw [piecesFrom, List.drop_zero]
      split
      · rename_i f found
        rw [List.flatMap_cons, ih, Piece.text, faithful _ _ _ _ found, List.cons_append,
          List.take_append_drop]
      · rw [List.flatMap_cons, ih, Piece.text, List.singleton_append, List.drop_zero]

/-- What holds of all that can be found holds of all that is found. -/
theorem Finder.of_mem_piecesFrom {α : Type} {find : Finder α} {P : α → Prop}
    (all : ∀ before c cs f, find before c cs = some f → P f.content) {before : Option Char}
    {skip : Nat} {s : Text} {content : α} {n : Nat}
    (mem : .found content n ∈ find.piecesFrom before skip s) : P content := by
  induction s generalizing before skip with
  | nil => simp [piecesFrom] at mem
  | cons c cs ih =>
    cases skip with
    | succ skip => exact ih mem
    | zero =>
      rw [piecesFrom] at mem
      split at mem
      · rename_i f found
        rcases List.mem_cons.mp mem with same | mem
        · cases same
          exact all _ _ _ _ found
        · exact ih mem
      · rcases List.mem_cons.mp mem with same | mem
        · cases same
        · exact ih mem

/-- A text literal is closed by a quote. -/
theorem getLast?_of_literalLength? {cs : Text} {n : Nat} (h : literalLength? cs = some n) :
    (cs.take n).getLast? = some '"' := by
  have longer {c : Char} {x : Text} (last : x.getLast? = some '"') :
      (c :: x).getLast? = some '"' := by
    rw [List.getLast?_cons, last]
    rfl
  fun_induction literalLength? cs generalizing n with
  | case1 => cases h
  | case2 => cases h; rfl
  | case3 => cases h
  | case4 c cs _ ih =>
    obtain ⟨m, found, rfl⟩ := Option.map_eq_some_iff.mp h
    exact longer (longer (ih found))
  | case5 => cases h
  | case6 c cs _ _ _ ih =>
    obtain ⟨m, found, rfl⟩ := Option.map_eq_some_iff.mp h
    exact longer (ih found)

/-- What the search takes for a literal stands there between quotes. -/
theorem textLiterals_eq_some {before : Option Char} {c : Char} {cs : Text} {f : Find Text}
    (h : textLiterals before c cs = some f) :
    f.content = c :: cs.take f.more ∧ c = '"' ∧ f.content.getLast? = some '"' := by
  rw [textLiterals] at h
  split at h
  · rename_i quote
    obtain ⟨n, length, rfl⟩ := Option.map_eq_some_iff.mp h
    refine ⟨rfl, by simpa using quote, ?_⟩
    rw [List.getLast?_cons, getLast?_of_literalLength? length]
    rfl
  · cases h

/-- The stretch, if there is one. -/
def stretchOf (x : Text) : List Segment := if x = [] then [] else [.plain x]

/-- The text consists of the stretches: literals between quotes, and what stands between them. -/
inductive Segmented : Text → List Segment → Prop
  | plain (x : Text) : Segmented x (stretchOf x)
  | literal (x : Text) {s rest : Text} {gs : List Segment} (first : s.head? = some '"')
      (last : s.getLast? = some '"') (more : Segmented rest gs) :
      Segmented (x ++ (s ++ rest)) (stretchOf x ++ .quoted s :: gs)

theorem joinPieces_append_of_stretch (x : Text) {ps : List (Piece Text)}
    (start : ∀ c, ps.head? ≠ some (.kept c)) :
    joinPieces (x.map .kept ++ ps) = stretchOf x ++ joinPieces ps := by
  rw [stretchOf]
  split
  · rename_i empty
    rw [empty]
    rfl
  · rename_i nonempty
    exact joinPieces_kept_append nonempty start

/-- Pieces of which the finds are literals.  `x` is the part of a stretch that was already
passed. -/
theorem segmented_pieces (ps : List (Piece Text))
    (quoted : ∀ s n, .found s n ∈ ps → s.head? = some '"' ∧ s.getLast? = some '"') (x : Text) :
    Segmented (x ++ ps.flatMap Piece.text) (joinPieces (x.map .kept ++ ps)) := by
  induction ps generalizing x with
  | nil =>
    rw [joinPieces_append_of_stretch x (by simp)]
    simpa [joinPieces] using Segmented.plain x
  | cons p ps ih =>
    have quoted' : ∀ s n, .found s n ∈ ps → s.head? = some '"' ∧ s.getLast? = some '"' :=
      fun s n mem => quoted s n (.tail p mem)
    cases p with
    | kept c =>
      have longer := ih quoted' (x ++ [c])
      rwa [List.map_append, List.append_assoc, List.append_assoc] at longer
    | found s n =>
      obtain ⟨first, last⟩ := quoted s n (.head ps)
      rw [joinPieces_append_of_stretch x (by simp), joinPieces, List.flatMap_cons]
      exact .literal x first last (ih quoted' [])

/-- **A text consists of its stretches.** -/
theorem segmented (s : Text) : Segmented s (segments s) := by
  have whole : (textLiterals.pieces s).flatMap Piece.text = s :=
    Finder.flatMap_piecesFrom_of_faithful (fun _ _ _ _ h => (textLiterals_eq_some h).1) none 0 s
  let between (t : Text) : Prop := t.head? = some '"' ∧ t.getLast? = some '"'
  have quoted : ∀ (t : Text) n, .found t n ∈ textLiterals.pieces s → between t := by
    intro t n mem
    have all : ∀ before c cs f, textLiterals before c cs = some f → between f.content := by
      intro before c cs f h
      obtain ⟨content, rfl, last⟩ := textLiterals_eq_some h
      exact ⟨by rw [content]; rfl, last⟩
    exact Finder.of_mem_piecesFrom all mem
  have consists := segmented_pieces (textLiterals.pieces s) quoted []
  rwa [List.nil_append, whole] at consists

/-- Around a literal no word goes on. -/
theorem inWord_of_quoted {s : Text} (first : s.head? = some '"') (last : s.getLast? = some '"')
    (before : Option Char) (rest : Text) :
    inWord (lastOr before s) = false ∧ inWord (s ++ rest).head? = false := by
  obtain ⟨s, rfl⟩ := List.head?_eq_some_iff.mp first
  rw [lastOr, last]
  exact ⟨(by decide : isNameChar '"' = false), (by decide : isNameChar '"' = false)⟩

theorem mem_stretchOf {g : Segment} {x : Text} (mem : g ∈ stretchOf x) : g = .plain x := by
  rw [stretchOf] at mem
  split at mem
  · cases mem
  · exact List.mem_singleton.mp mem

/-- A stretch between literals is cut out between words. -/
theorem Segmented.part {s x : Text} {gs : List Segment} (h : Segmented s gs)
    (mem : .plain x ∈ gs) : Part x s := by
  induction h with
  | plain y =>
    obtain rfl : x = y := Segment.plain.inj (mem_stretchOf mem)
    exact .refl x
  | @literal y t rest gs first last _ ih =>
    have close : inWord (y ++ t).getLast? = false := by
      rw [List.getLast?_append, last]
      exact (by decide : isNameChar '"' = false)
    have opened : inWord (t ++ rest).head? = false := (inWord_of_quoted first last none rest).2
    rcases List.mem_append.mp mem with here | there
    · obtain rfl : x = y := Segment.plain.inj (mem_stretchOf here)
      exact .of_append_left (.inr opened)
    · have behind : .plain x ∈ gs := (List.mem_cons.mp there).resolve_left nofun
      rw [← List.append_assoc]
      exact (ih behind).trans (.of_append_right (.inl close))

/-- **What holds of the stretches holds of the whole.**  A stretch between literals is looked at with
what is next to it, and there no word goes on. -/
theorem segments_induction {β : Type} {R : Option Char → Text → Text → List β → Prop}
    {act : Segment → List β} (empty : act (.plain []) = [])
    (append : ∀ {before : Option Char} {x y rest : Text} {t u : List β}, R before x (y ++ rest) t →
      R (lastOr before x) y rest u → R before (x ++ y) rest (t ++ u))
    (plain : ∀ {before : Option Char} {x rest : Text}, inWord before = false →
      inWord rest.head? = false → R before x rest (act (.plain x)))
    (quoted : ∀ before x rest, R before x rest (act (.quoted x))) (s : Text) :
    R none s [] ((segments s).flatMap act) := by
  have flat (x : Text) : (stretchOf x).flatMap act = act (.plain x) := by
    rw [stretchOf]
    split
    · rename_i none
      rw [none, empty]
      rfl
    · exact List.flatMap_singleton ..
  have whole {s : Text} {gs : List Segment} (h : Segmented s gs) :
      ∀ before, inWord before = false → R before s [] (gs.flatMap act) := by
    induction h with
    | plain x =>
      intro before outside
      rw [flat]
      exact plain outside rfl
    | @literal x s rest gs first last _ ih =>
      intro before outside
      obtain ⟨behind, front⟩ := inWord_of_quoted first last (lastOr before x) (rest ++ [])
      rw [← List.append_assoc] at front
      rw [List.flatMap_append, flat, List.flatMap_cons]
      exact append (plain outside front) (append (quoted _ s _) (ih _ behind))
  exact whole (segmented s) none inWord_none

/-- The stretch, changed if it is no literal. -/
def Segment.changed (change : Text → Text) : Segment → Text
  | plain x => change x
  | quoted x => x

theorem outsideLiterals_eq_flatMap (change : Text → Text) (s : Text) :
    outsideLiterals change s = (segments s).flatMap (Segment.changed change) := by
  rw [outsideLiterals]
  refine List.flatMap_congr fun g _ => ?_
  cases g <;> rfl

variable {data : List (Text × Datum)}

/-- **Inlining rewrites a text** and does nothing else to it. -/
theorem inlines_inlineLiterals (names : ∀ entry ∈ data, IsName entry.1) (s : Text) :
    Inlines data none s [] (inlineLiterals (dataLiterals data) s) := by
  have stretch (x : Text) : Inlines data none x [] (inlineNames data none (pointed none x)) :=
    inlines_stretch names x rfl
  have quoted (before : Option Char) (x rest : Text) : Inlines data before x rest x := by
    simpa using Inlines.keep_append (x := x) (.nil : Inlines data (lastOr before x) [] rest [])
  rw [inlineLiterals, outsideLiterals_eq_flatMap]
  exact segments_induction rfl Inlines.append (fun outside stop => (stretch _).frame outside stop)
    quoted s

end Haulage
