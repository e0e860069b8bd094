/-
# Variables in any order

The search for names goes through a list, and the list says which of two names is tried first.  It is
sorted by length alone, so entries of one length stay in the order in which the variables came.  That
order shows nowhere.  Two names that stand at one place are both the start of what follows it, so if
they are of one length they are one name, and a mapping has one entry under it (`Longest.unique`).

What comes out is therefore said by the mapping as a set of entries.  In `PutsLongest` nothing is tried
before anything else: a character stays if no name stands in front of it, and otherwise the longest of
the names that do makes room for its literal.  The search does that (`putsLongest_search`), nothing
else can be done (`PutsLongest.unique`), and so reordering the variables changes nothing
(`inlineLiterals_perm`).

Names may be any texts here.  A name that looks like an operator, or like half of another name, is
handled as all the others are.
-/
import Haulage.Proofs.Substitution.Numbers

namespace Haulage

/-! ## 1. The longest name at a place -/

/-- Behind the character in front of it the text starts with the name, and no longer name of the data
stands there as well. -/
structure Longest (data : List (Text × Datum)) (before : Option Char) (s n : Text) (d : Datum) :
    Prop where
  mem : (n, d) ∈ data
  nonempty : n ≠ []
  stands : standsAt n before s = true
  longest : ∀ entry ∈ data, standsAt entry.1 before s = true → entry.1.length ≤ n.length

/-- No name of the data stands there. -/
def Free (data : List (Text × Datum)) (before : Option Char) (s : Text) : Prop :=
  ∀ entry ∈ data, entry.1 ≠ [] → standsAt entry.1 before s = false

section

variable {data data' : List (Text × Datum)} {before : Option Char} {s n n' out out' : Text}
  {d d' : Datum}

theorem prefix_of_standsAt (h : standsAt n before s = true) : n <+: s := by
  simp only [standsAt, Bool.and_eq_true, List.isPrefixOf_iff_prefix] at h
  exact h.1.1

/-- Under a name a mapping has one entry. -/
theorem eq_of_mem_of_nodup (mapping : (data.map Prod.fst).Nodup) (mem : (n, d) ∈ data)
    (mem' : (n, d') ∈ data) : d = d' := by
  have same := List.inj_on_of_nodup_map mapping mem mem' rfl
  exact congrArg Prod.snd same

/-- **One entry is the longest.**  Names of one length that stand at one place are the same. -/
theorem Longest.unique (mapping : (data.map Prod.fst).Nodup) (h : Longest data before s n d)
    (h' : Longest data before s n' d') : n = n' ∧ d = d' := by
  have atMost := h'.longest _ h.mem h.stands
  have atLeast := h.longest _ h'.mem h'.stands
  have start := List.prefix_of_prefix_length_le (prefix_of_standsAt h.stands)
    (prefix_of_standsAt h'.stands) atMost
  obtain rfl : n = n' := start.eq_of_length_le atLeast
  exact ⟨rfl, eq_of_mem_of_nodup mapping h.mem h'.mem⟩

theorem Longest.not_free (h : Longest data before s n d) : ¬ Free data before s := by
  intro free
  have none := free _ h.mem h.nonempty
  rw [h.stands] at none
  cases none

/-! ## 2. Putting the longest name's literal in -/

/-- Behind the character in front of it, may the text become the other one, if from left to right the
longest name that stands at a place makes room for its literal? -/
inductive PutsLongest (data : List (Text × Datum)) : Option Char → Text → Text → Prop
  | nil {before : Option Char} : PutsLongest data before [] []
  | keep {before : Option Char} {c : Char} {s out : Text} (free : Free data before (c :: s))
      (more : PutsLongest data (some c) s out) : PutsLongest data before (c :: s) (c :: out)
  | name {before : Option Char} {n s out : Text} {d : Datum}
      (longest : Longest data before (n ++ s) n d)
      (more : PutsLongest data (lastOr before n) s out) :
      PutsLongest data before (n ++ s) (d.literal ++ out)

/-- **Nothing is left open** by a mapping: a text becomes one other. -/
theorem PutsLongest.unique (mapping : (data.map Prod.fst).Nodup)
    (h : PutsLongest data before s out) (h' : PutsLongest data before s out') : out = out' := by
  induction h generalizing out' with
  | nil =>
    generalize empty : ([] : Text) = s at h'
    cases h' with
    | nil => rfl
    | keep => cases empty
    | name longest => exact absurd (List.append_eq_nil_iff.mp empty.symm).1 longest.nonempty
  | @keep before c s out free more ih =>
    generalize whole : c :: s = w at h'
    cases h' with
    | nil => cases whole
    | keep _ more' =>
      cases whole
      rw [ih more']
    | name longest =>
      rw [whole] at free
      exact absurd free longest.not_free
  | @name before n s out d longest more ih =>
    generalize whole : n ++ s = w at h'
    cases h' with
    | nil => exact absurd (List.append_eq_nil_iff.mp whole).1 longest.nonempty
    | keep free =>
      rw [whole] at longest
      exact absurd free longest.not_free
    | @name _ n' s' out' d' longest' more' =>
      rw [← whole] at longest'
      obtain ⟨rfl, rfl⟩ := longest.unique mapping longest'
      obtain rfl := List.append_cancel_left whole
      rw [ih more']

/-- What is put in depends on which entries there are, and on nothing else about the data. -/
theorem PutsLongest.of_mem_iff (same : ∀ entry, entry ∈ data ↔ entry ∈ data')
    (h : PutsLongest data before s out) : PutsLongest data' before s out := by
  induction h with
  | nil => exact .nil
  | keep free _ ih => exact .keep (fun entry mem => free entry ((same entry).mpr mem)) ih
  | name longest _ ih =>
    refine .name ?_ ih
    exact {
      mem := (same _).mp longest.mem
      nonempty := longest.nonempty
      stands := longest.stands
      longest := fun entry mem => longest.longest entry ((same entry).mpr mem) }

/-! ## 3. What the search does -/

theorem mem_longestFirst {literals : List (Text × Text)} {entry : Text × Text} :
    entry ∈ longestFirst literals ↔ entry ∈ literals ∧ entry.1 ≠ [] := by
  simp [longestFirst, List.mem_mergeSort]

/-- No entry has a longer name than one in front of it. -/
theorem pairwise_longestFirst (literals : List (Text × Text)) :
    (longestFirst literals).Pairwise fun a b => b.1.length ≤ a.1.length := by
  have sorted : (longestFirst literals).Pairwise fun a b => decide (b.1.length ≤ a.1.length) := by
    refine List.pairwise_mergeSort ?_ ?_ _
    · intro a b c longer longer'
      simp only [decide_eq_true_eq] at *
      omega
    · intro a b
      simp only [Bool.or_eq_true, decide_eq_true_eq]
      omega
  exact sorted.imp of_decide_eq_true

/-- Where the search finds no name, none stands. -/
theorem free_of_namesIn {c : Char} {cs : Text}
    (h : namesIn (longestFirst (dataLiterals data)) before c cs = none) :
    Free data before (c :: cs) := by
  intro entry mem nonempty
  have none := List.find?_eq_none.mp (Option.map_eq_none_iff.mp h)
  have listed : (entry.1, entry.2.literal) ∈ longestFirst (dataLiterals data) :=
    mem_longestFirst.mpr ⟨List.mem_map_of_mem mem, nonempty⟩
  simpa using none _ listed

/-- **The search finds the longest name** that stands at a place: all before it in the list do not,
and none behind it is longer. -/
theorem exists_longest_of_namesIn {c : Char} {cs : Text} {f : Find Text}
    (h : namesIn (longestFirst (dataLiterals data)) before c cs = some f) :
    ∃ n d, Longest data before (c :: cs) n d ∧ f = ⟨n.length - 1, d.literal⟩ := by
  obtain ⟨found, first, rfl⟩ := Option.map_eq_some_iff.mp h
  obtain ⟨stands, front, back, list, passed⟩ := List.find?_eq_some_iff_append.mp first
  have sorted := pairwise_longestFirst (dataLiterals data)
  obtain ⟨listed, nonempty⟩ := mem_longestFirst.mp (List.mem_of_find?_eq_some first)
  obtain ⟨⟨n, d⟩, mem, rfl⟩ := List.mem_map.mp listed
  refine ⟨n, d, ⟨mem, nonempty, stands, ?_⟩, rfl⟩
  intro entry mem' stands'
  by_cases empty : entry.1 = []
  · simp [empty]
  have listed' : (entry.1, entry.2.literal) ∈ longestFirst (dataLiterals data) :=
    mem_longestFirst.mpr ⟨List.mem_map_of_mem mem', empty⟩
  rw [list] at listed' sorted
  rcases List.mem_append.mp listed' with early | late
  · have other := passed _ early
    simp [stands'] at other
  · rcases List.mem_cons.mp late with same | late
    · exact (congrArg (List.length ∘ Prod.fst) same).le
    · exact (List.pairwise_cons.mp (List.pairwise_append.mp sorted).2.1).1 _ late

/-- **The search puts the longest name's literal in**, at every place. -/
theorem putsLongest_search (data : List (Text × Datum)) (before : Option Char) (s : Text) :
    PutsLongest data before s
      (((namesIn (longestFirst (dataLiterals data))).piecesFrom before 0 s).flatMap Piece.text) := by
  induction size : s.length using Nat.strong_induction_on generalizing before s with
  | _ length ih =>
  subst size
  cases s with
  | nil => exact .nil
  | cons c cs =>
    cases found : namesIn (longestFirst (dataLiterals data)) before c cs with
    | none =>
      rw [Finder.piecesFrom, found]
      exact .keep (free_of_namesIn found) (ih _ (Nat.lt_succ_self _) _ _ rfl)
    | some f =>
      obtain ⟨n, d, longest, rfl⟩ := exists_longest_of_namesIn found
      obtain ⟨rest, whole⟩ := prefix_of_standsAt longest.stands
      obtain ⟨e, m, rfl⟩ := List.exists_cons_of_ne_nil longest.nonempty
      obtain ⟨rfl, rfl⟩ : e = c ∧ m ++ rest = cs := List.cons.inj whole
      have pieces := Finder.piecesFrom_of_found found
      rw [List.cons_append] at pieces
      rw [pieces]
      have shorter : rest.length < (e :: (m ++ rest)).length := by simp
      exact .name (n := e :: m) longest (ih _ shorter _ _ rfl)

/-! ## 4. The whole of a formula -/

/-- May the stretch become the text?  A literal stays.  Between literals, what stands once decimal
commas are points has the literals of the longest names put in. -/
def Segment.PutsLongest (data : List (Text × Datum)) : Segment → Text → Prop
  | plain x, out => Haulage.PutsLongest data none (decimalCommas.replaceAll x) out
  | quoted x, out => out = x

/-- May the formula become the text, stretch by stretch? -/
def FillsLongest (data : List (Text × Datum)) (s out : Text) : Prop :=
  ∃ outs, List.Forall₂ (Segment.PutsLongest data) (segments s) outs ∧ out = outs.flatten

theorem Segment.PutsLongest.unique (mapping : (data.map Prod.fst).Nodup) {g : Segment}
    (h : g.PutsLongest data out) (h' : g.PutsLongest data out') : out = out' := by
  cases g with
  | plain x => exact Haulage.PutsLongest.unique mapping h h'
  | quoted x => exact h.trans h'.symm

theorem FillsLongest.unique (mapping : (data.map Prod.fst).Nodup) (h : FillsLongest data s out)
    (h' : FillsLongest data s out') : out = out' := by
  obtain ⟨outs, fill, rfl⟩ := h
  obtain ⟨outs', fill', rfl⟩ := h'
  have one : Relator.RightUnique (Segment.PutsLongest data) :=
    fun _ _ _ h h' => Segment.PutsLongest.unique mapping h h'
  rw [one.forall₂ fill fill']

theorem FillsLongest.of_mem_iff (same : ∀ entry, entry ∈ data ↔ entry ∈ data')
    (h : FillsLongest data s out) : FillsLongest data' s out := by
  obtain ⟨outs, fill, rfl⟩ := h
  refine ⟨outs, fill.imp fun g out puts => ?_, rfl⟩
  cases g with
  | plain x => exact Haulage.PutsLongest.of_mem_iff same puts
  | quoted x => exact puts

/-- **Inlining puts the longest names' literals in**, in every stretch between text literals. -/
theorem fillsLongest_inlineLiterals (data : List (Text × Datum)) (s : Text) :
    FillsLongest data s (inlineLiterals (dataLiterals data) s) := by
  have stretches (gs : List Segment) : List.Forall₂ (Segment.PutsLongest data) gs
      (gs.map (Segment.changed fun x =>
        (namesIn (longestFirst (dataLiterals data))).replaceAll (decimalCommas.replaceAll x))) := by
    rw [List.forall₂_map_right_iff, List.forall₂_same]
    intro g _
    cases g with
    | plain x => exact putsLongest_search data none _
    | quoted x => exact rfl
  refine ⟨_, stretches (segments s), ?_⟩
  rw [inlineLiterals, outsideLiterals_eq_flatMap, List.flatMap_def]

end

/-- **The order of the variables does not matter.**  Two lists of the same entries, one under each
name, make the same of every formula.  It is the one text in which at each place outside text literals
the longest name that stands there, if any does, has made room for its literal. -/
theorem inlineLiterals_perm {data data' : List (Text × Datum)}
    (mapping : (data.map Prod.fst).Nodup) (reordered : data.Perm data') (s : Text) :
    inlineLiterals (dataLiterals data) s = inlineLiterals (dataLiterals data') s ∧
      ∀ out, FillsLongest data s out ↔ out = inlineLiterals (dataLiterals data) s := by
  have fills := fillsLongest_inlineLiterals data s
  have fills' := (fillsLongest_inlineLiterals data' s).of_mem_iff fun _ => reordered.symm.mem_iff
  refine ⟨fills.unique mapping fills', fun out => ⟨fun h => h.unique mapping fills, ?_⟩⟩
  rintro rfl
  exact fills

/-- Three names, two of which stand at the start of a formula and two of which are of one length. -/
theorem inlineLiterals_perm_of_overlapping :
    let data : List (Text × Datum) :=
      [("kg/".toList, .number 5), ("g/m".toList, .text "per".toList), ("kg".toList, .number 2)]
    (data.map Prod.fst).Nodup ∧ data.Perm data.reverse ∧
      inlineLiterals (dataLiterals data.reverse) "kg/m + \"kg\" + kg".toList =
        "5m + \"kg\" + 2".toList := by
  intro data
  have mapping : (data.map Prod.fst).Nodup := by decide
  have reordered : data.Perm data.reverse := data.reverse_perm.symm
  have sorted : longestFirst (dataLiterals data) = dataLiterals data :=
    List.mergeSort_of_pairwise (by decide)
  refine ⟨mapping, reordered, ?_⟩
  rw [← (inlineLiterals_perm mapping reordered _).1, inlineLiterals, sorted]
  decide +kernel

end Haulage
