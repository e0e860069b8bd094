/-
# Searches go on behind what they find

A search is a walk along a text, and most of what is said about one is said stretch by stretch.  A
stretch where nothing begins stays as it is (`piecesFrom_append_of_quiet`), and behind a find the
search goes on as if it had just reached the place (`piecesFrom_append_skip`).  Either way the only
thing that is carried over is the last character before it, `lastOr`.

Behind a find whatever begins among its characters is passed over.  Where nothing does, the search
has all that begins anywhere in the text (`Finder.mem_places_iff`).
-/
import Haulage.Text.Search
import Mathlib

namespace Haulage

/-! ## 1. Stretches -/

/-- The last character of a text, or the one in front of it if it is empty. -/
def lastOr (before : Option Char) (x : Text) : Option Char := x.getLast?.or before

@[simp] theorem lastOr_nil (before : Option Char) : lastOr before [] = before := rfl

theorem lastOr_cons (before : Option Char) (c : Char) (x : Text) :
    lastOr before (c :: x) = lastOr (some c) x := by
  cases x with
  | nil => rfl
  | cons d x => simp [lastOr, List.getLast?_eq_some_getLast]

theorem lastOr_append (before : Option Char) (x y : Text) :
    lastOr before (x ++ y) = lastOr (lastOr before x) y := by
  induction x generalizing before with
  | nil => rfl
  | cons c x ih => rw [List.cons_append, lastOr_cons, ih, lastOr_cons]

theorem lastOr_concat (before : Option Char) (x : Text) (c : Char) :
    lastOr before (x ++ [c]) = some c := by
  rw [lastOr, List.getLast?_concat]
  rfl

theorem exists_lastOr (c : Char) (x : Text) : ∃ d ∈ c :: x, lastOr (some c) x = some d := by
  cases last : x.getLast? with
  | none => exact ⟨c, List.mem_cons_self, by rw [lastOr, last, Option.none_or]⟩
  | some d =>
    have mem := List.mem_of_getLast? last
    exact ⟨d, List.mem_cons_of_mem _ mem, by rw [lastOr, last, Option.some_or]⟩

/-- Nothing begins at any place of a text that stands between a character and another text. -/
def Quiet {β : Type} (probe : Option Char → Char → Text → Option β) :
    Option Char → Text → Text → Prop
  | _, [], _ => True
  | before, c :: cs, rest => probe before c (cs ++ rest) = none ∧ Quiet probe (some c) cs rest

theorem quiet_append {β : Type} {probe : Option Char → Char → Text → Option β}
    {before : Option Char} {x y rest : Text} :
    Quiet probe before (x ++ y) rest ↔
      Quiet probe before x (y ++ rest) ∧ Quiet probe (lastOr before x) y rest := by
  induction x generalizing before with
  | nil => simp [Quiet]
  | cons c x ih => simp [Quiet, ih, lastOr_cons, and_assoc]

theorem quiet_iff {β : Type} {probe : Option Char → Char → Text → Option β} {before : Option Char}
    {x rest : Text} :
    Quiet probe before x rest ↔
      ∀ u c v, x = u ++ c :: v → probe (lastOr before u) c (v ++ rest) = none := by
  constructor
  · rintro quiet u c v rfl
    exact (quiet_append.mp quiet).2.1
  · intro none
    induction x generalizing before with
    | nil => trivial
    | cons c x ih =>
      refine ⟨none [] c x rfl, ih fun u d v cut => ?_⟩
      rw [← lastOr_cons]
      exact none (c :: u) d v (by rw [cut]; rfl)

/-- Where nothing begins for one probe, nothing does for another that finds less. -/
theorem Quiet.mono {β γ : Type} {probe : Option Char → Char → Text → Option β}
    {probe' : Option Char → Char → Text → Option γ}
    (less : ∀ before c cs, probe before c cs = none → probe' before c cs = none)
    {before : Option Char} {x rest : Text} (h : Quiet probe before x rest) :
    Quiet probe' before x rest := by
  induction x generalizing before with
  | nil => trivial
  | cons c x ih => exact ⟨less _ _ _ h.1, ih h.2⟩

namespace Finder

variable {α : Type} {find : Finder α}

/-- What is quiet stays as it is. -/
theorem piecesFrom_append_of_quiet {before : Option Char} {x rest : Text}
    (h : Quiet find before x rest) :
    find.piecesFrom before 0 (x ++ rest) =
      x.map .kept ++ find.piecesFrom (lastOr before x) 0 rest := by
  induction x generalizing before with
  | nil => rfl
  | cons c x ih =>
    rw [List.cons_append, piecesFrom, h.1, ih h.2, lastOr_cons]
    rfl

/-- A search that is quiet keeps every character. -/
theorem pieces_of_quiet {t : Text} (h : Quiet find none t []) : find.pieces t = t.map .kept := by
  have := piecesFrom_append_of_quiet h
  rwa [List.append_nil, piecesFrom, List.append_nil] at this

/-- A search that does not look back may start anywhere. -/
theorem piecesFrom_congr_before (blind : ∀ before before' c cs, find before c cs = find before' c cs)
    (before before' : Option Char) (s : Text) :
    find.piecesFrom before 0 s = find.piecesFrom before' 0 s := by
  cases s with
  | nil => rfl
  | cons c cs => rw [piecesFrom, piecesFrom, blind before before']

/-- The characters that belong to a find are passed over. -/
theorem piecesFrom_append_skip (before : Option Char) (x rest : Text) :
    find.piecesFrom before x.length (x ++ rest) = find.piecesFrom (lastOr before x) 0 rest := by
  induction x generalizing before with
  | nil => rfl
  | cons c x ih => rw [List.cons_append, List.length_cons, piecesFrom, ih, lastOr_cons]

/-- What is found is passed over. -/
theorem piecesFrom_of_found {before : Option Char} {c : Char} {x rest : Text} {content : α}
    (h : find before c (x ++ rest) = some ⟨x.length, content⟩) :
    find.piecesFrom before 0 (c :: x ++ rest) =
      .found content (x.length + 1) :: find.piecesFrom (lastOr before (c :: x)) 0 rest := by
  rw [List.cons_append, piecesFrom, h, lastOr_cons]
  simp only [piecesFrom_append_skip]

end Finder

@[simp] theorem flatMap_text_map_kept (x : Text) : (x.map Piece.kept).flatMap Piece.text = x := by
  induction x with
  | nil => rfl
  | cons c x ih => simp [Piece.text, ih]

@[simp] theorem filterMap_content?_map_kept {α : Type} (x : Text) :
    (x.map Piece.kept : List (Piece α)).filterMap Piece.content? = [] := by
  induction x with
  | nil => rfl
  | cons c x ih => simp [Piece.content?]

/-! ## 2. Places -/

section Places

variable {α : Type} {ps : List (Piece α)} {place : Nat}

theorem placesFrom_map_kept (x : Text) (place : Nat) :
    Finder.placesFrom place (x.map Piece.kept : List (Piece α)) = [] := by
  induction x generalizing place with
  | nil => rfl
  | cons c x ih => exact ih (place + 1)

theorem placesFrom_kept_append (x : Text) (place : Nat) (ps : List (Piece α)) :
    Finder.placesFrom place (x.map .kept ++ ps) = Finder.placesFrom (place + x.length) ps := by
  induction x generalizing place with
  | nil => rfl
  | cons c x ih =>
    rw [List.map_cons, List.cons_append, Finder.placesFrom, ih, List.length_cons]
    congr 1
    omega

theorem exists_mem_placesFrom {x : α} (h : x ∈ ps.filterMap Piece.content?) (place : Nat) :
    ∃ start, (start, x) ∈ Finder.placesFrom place ps := by
  induction ps generalizing place with
  | nil => cases h
  | cons p ps ih =>
    cases p with
    | kept c => exact ih h (place + 1)
    | found content length =>
      rcases List.mem_cons.mp h with rfl | h
      · exact ⟨place, List.mem_cons_self⟩
      · obtain ⟨start, mem⟩ := ih h (place + length)
        exact ⟨start, List.mem_cons_of_mem _ mem⟩

theorem le_of_mem_placesFrom {find : Nat × α} (h : find ∈ Finder.placesFrom place ps) :
    place ≤ find.1 := by
  induction ps generalizing place with
  | nil => cases h
  | cons p ps ih =>
    cases p with
    | kept c => exact Nat.le_of_succ_le (ih h)
    | found content length =>
      rcases List.mem_cons.mp h with rfl | h
      · exact le_rfl
      · exact Nat.le_of_add_right_le (ih h)

end Places

namespace Finder

variable {α : Type} {find : Finder α}

/-- Places come in order. -/
theorem pairwise_placesFrom (place : Nat) (ps : List (Piece α)) :
    (placesFrom place ps).Pairwise fun a b => a.1 ≤ b.1 := by
  induction ps generalizing place with
  | nil => exact .nil
  | cons p ps ih =>
    cases p with
    | kept c => exact ih (place + 1)
    | found content length =>
      refine .cons (fun b mem => ?_) (ih (place + length))
      exact Nat.le_of_add_right_le (le_of_mem_placesFrom mem)

/-- What a search has at a place begins there. -/
theorem exists_of_mem_placesFrom {before : Option Char} (place skip : Nat) {s : Text} {b : Nat × α}
    (mem : b ∈ placesFrom (place + skip) (find.piecesFrom before skip s)) :
    ∃ x c cs f, s = x ++ c :: cs ∧ b = (place + x.length, f.content) ∧
      find (lastOr before x) c cs = some f := by
  induction s generalizing before place skip with
  | nil => cases mem
  | cons c cs ih =>
    have further (skip : Nat)
        (mem : b ∈ placesFrom (place + (skip + 1)) (find.piecesFrom (some c) skip cs)) :
        ∃ x d ds f, c :: cs = x ++ d :: ds ∧ b = (place + x.length, f.content) ∧
          find (lastOr before x) d ds = some f := by
      rw [Nat.add_comm skip, ← Nat.add_assoc] at mem
      obtain ⟨x, d, ds, f, rfl, rfl, found⟩ := ih _ _ mem
      refine ⟨c :: x, d, ds, f, rfl, ?_, ?_⟩
      · rw [List.length_cons, Nat.add_assoc, Nat.add_comm 1]
      · rwa [lastOr_cons]
    cases skip with
    | succ skip => exact further skip mem
    | zero =>
      rw [piecesFrom] at mem
      split at mem
      · rename_i f found
        rcases List.mem_cons.mp mem with rfl | mem
        · exact ⟨[], c, cs, f, rfl, rfl, found⟩
        · exact further f.more mem
      · exact further 0 mem

/-- Nothing begins among the characters that a find takes. -/
def Apart (find : Finder α) : Prop :=
  ∀ before c cs f, find before c cs = some f →
    Quiet find (some c) (cs.take f.more) (cs.drop f.more)

/-- Where finds are apart, whatever begins at a place is found there. -/
theorem mem_placesFrom (apart : find.Apart) {before : Option Char} (place skip : Nat) {x cs : Text}
    {c : Char} {f : Find α}
    (quiet : Quiet find before ((x ++ c :: cs).take skip) ((x ++ c :: cs).drop skip))
    (found : find (lastOr before x) c cs = some f) :
    (place + x.length, f.content) ∈
      placesFrom (place + skip) (find.piecesFrom before skip (x ++ c :: cs)) := by
  induction x generalizing before place skip with
  | nil =>
    cases skip with
    | zero =>
      rw [lastOr_nil] at found
      rw [List.nil_append, piecesFrom, found]
      exact List.mem_cons_self
    | succ skip =>
      obtain ⟨none, -⟩ : find before c (cs.take skip ++ cs.drop skip) = none ∧ _ := quiet
      rw [List.take_append_drop] at none
      cases none.symm.trans found
  | cons d x ih =>
    rw [lastOr_cons] at found
    have further (skip : Nat)
        (quiet : Quiet find (some d) ((x ++ c :: cs).take skip) ((x ++ c :: cs).drop skip)) :
        (place + (x.length + 1), f.content) ∈
          placesFrom (place + (skip + 1)) (find.piecesFrom (some d) skip (x ++ c :: cs)) := by
      have mem := ih (place + 1) skip quiet found
      rwa [Nat.add_assoc, Nat.add_comm 1, Nat.add_assoc, Nat.add_comm 1] at mem
    rw [List.cons_append, List.length_cons]
    cases skip with
    | succ skip => exact further skip quiet.2
    | zero =>
      rw [piecesFrom]
      split
      · rename_i g first
        exact List.mem_cons_of_mem _ (further g.more (apart _ _ _ _ first))
      · exact further 0 trivial

/-- Where finds are apart, a search finds just what begins somewhere in the text. -/
theorem mem_places_iff (apart : find.Apart) {s : Text} {b : Nat × α} :
    b ∈ find.places s ↔ ∃ x c cs f, s = x ++ c :: cs ∧ b = (x.length, f.content) ∧
      find (lastOr none x) c cs = some f := by
  constructor
  · intro mem
    obtain ⟨x, c, cs, f, whole, rfl, found⟩ := exists_of_mem_placesFrom 0 0 mem
    exact ⟨x, c, cs, f, whole, by rw [Nat.zero_add], found⟩
  · rintro ⟨x, c, cs, f, rfl, rfl, found⟩
    have mem := mem_placesFrom apart 0 0 trivial found
    rw [Nat.zero_add x.length] at mem
    exact mem

end Finder

end Haulage
