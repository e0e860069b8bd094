/-
# Sorting keeps the order among equals

With a test that compares ranks, and compares them without effects, `sortBy` is the stable sort: the
list comes out in the order of the ranks, and items of one rank keep the order in which they are
listed (`sorts_sortBy`).  There is only one such list (`Sorts.unique`).

Whatever the test, and whatever its effects, a change of the items that it does not see is carried
through the sort (`sortBy_map`).  A test without effects need not be an order for the sort to keep the
number of items (`length_sortBy`).
-/
import Haulage.Sorting
import Mathlib

namespace Haulage

variable {α κ : Type} [LinearOrder κ]

/-- The first list is the second in the order of ranks, items of one rank in their order there. -/
structure Sorts (rank : α → κ) (sorted xs : List α) : Prop where
  ordered : sorted.Pairwise fun a b => rank a ≤ rank b
  stable : ∀ k, (sorted.filter fun a => rank a = k) = xs.filter fun a => rank a = k

namespace Sorts

variable {rank : α → κ} {sorted sorted' xs : List α}

theorem mem_iff (h : Sorts rank sorted xs) {a : α} : a ∈ sorted ↔ a ∈ xs := by
  have same (ys : List α) : a ∈ ys ↔ a ∈ ys.filter fun b => rank b = rank a := by simp
  rw [same sorted, h.stable, ← same]

/-- **There is only one stable order.** -/
theorem unique (h : Sorts rank sorted xs) (h' : Sorts rank sorted' xs) : sorted = sorted' := by
  have stable (k : κ) : (sorted.filter fun a => rank a = k) = sorted'.filter fun a => rank a = k :=
    (h.stable k).trans (h'.stable k).symm
  have ordered := h.ordered
  have ordered' := h'.ordered
  clear h h'
  induction sorted generalizing sorted' with
  | nil =>
    cases sorted' with
    | nil => rfl
    | cons b bs => simpa using stable (rank b)
  | cons a as ih =>
    cases sorted' with
    | nil => simpa using stable (rank a)
    | cons b bs =>
      have mem {c : α} : c ∈ a :: as ↔ c ∈ b :: bs := by
        have same (ys : List α) : c ∈ ys ↔ c ∈ ys.filter fun d => rank d = rank c := by simp
        rw [same (a :: as), stable, ← same]
      have least : rank b ≤ rank a := by
        rcases List.mem_cons.mp (mem.mp (.head as)) with rfl | tail
        · exact le_rfl
        · exact (List.pairwise_cons.mp ordered').1 a tail
      have least' : rank a ≤ rank b := by
        rcases List.mem_cons.mp (mem.mpr (.head bs)) with rfl | tail
        · exact le_rfl
        · exact (List.pairwise_cons.mp ordered).1 b tail
      have same : rank a = rank b := le_antisymm least' least
      obtain rfl : a = b := by
        have := stable (rank a)
        rw [List.filter_cons_of_pos (by simp), List.filter_cons_of_pos (by simp [same])] at this
        exact (List.cons.inj this).1
      refine congrArg (a :: ·) (ih (fun k => ?_) ordered.of_cons ordered'.of_cons)
      have := stable k
      by_cases here : rank a = k
      · simpa [here] using this
      · simpa [here] using this

/-- Items of different ranks come out in the same order however they are listed. -/
theorem perm {ys : List α} (h : Sorts rank sorted xs) (perm : xs.Perm ys)
    (distinct : xs.Pairwise fun a b => rank a ≠ rank b) : Sorts rank sorted ys := by
  refine ⟨h.ordered, fun k => (h.stable k).trans ?_⟩
  have short : (xs.filter fun a => rank a = k).Pairwise fun _ _ => False :=
    (distinct.filter _).imp_of_mem fun ha hb other => other (by
      simp only [List.mem_filter, decide_eq_true_eq] at ha hb
      rw [ha.2, hb.2])
  have perm := perm.filter fun a => decide (rank a = k)
  generalize xs.filter (fun a => decide (rank a = k)) = zs at short perm
  match zs with
  | [] => exact (List.nil_perm.mp perm).symm
  | [a] => exact (List.singleton_perm.mp perm)
  | a :: b :: _ => exact ((List.pairwise_cons.mp short).1 b (by simp)).elim

/-- Items of one rank keep their order if only others are listed in another one. -/
theorem of_filter {ys : List α} (h : Sorts rank sorted xs) (perm : ys.Perm xs)
    (same : ∀ a ∈ xs, (ys.filter fun b => rank b = rank a) = xs.filter fun b => rank b = rank a) :
    Sorts rank sorted ys := by
  refine ⟨h.ordered, fun k => (h.stable k).trans ?_⟩
  by_cases some : ∃ a ∈ xs, rank a = k
  · obtain ⟨a, ha, rfl⟩ := some
    exact (same a ha).symm
  · have none : ∀ a ∈ xs, ¬rank a = k := fun a ha here => some ⟨a, ha, here⟩
    rw [List.filter_eq_nil_iff.mpr fun a ha => by simpa using none a ha,
      List.filter_eq_nil_iff.mpr fun a ha => by simpa using none a (perm.mem_iff.mp ha)]

/-- What ranks do not see may be added or dropped. -/
theorem map {β : Type} {rank : β → κ} {f : α → β} (h : Sorts (fun a => rank (f a)) sorted xs) :
    Sorts rank (sorted.map f) (xs.map f) := by
  refine ⟨List.pairwise_map.mpr h.ordered, fun k => ?_⟩
  rw [List.filter_map, List.filter_map]
  exact congrArg (List.map f) (h.stable k)

end Sorts

/-- Items of which every one is below those in front of it, or none is, put in order. -/
theorem sorts_start {rank : α → κ} {falling : Bool} {taken : List α}
    (steps : taken.Pairwise fun a b => decide (rank a < rank b) = falling) :
    Sorts rank (if falling then taken else taken.reverse) taken.reverse := by
  cases falling with
  | false =>
    refine ⟨List.pairwise_reverse.mpr (steps.imp fun step => ?_), fun _ => rfl⟩
    simpa using step
  | true =>
    have steps : taken.Pairwise fun a b => rank a < rank b := steps.imp fun step => by simpa using step
    exact Sorts.perm ⟨steps.imp fun step => step.le, fun _ => rfl⟩ (List.reverse_perm taken).symm
      (steps.imp fun step => step.ne)

/-! ## 1. Insertion -/

section

variable {rank : α → κ} {less : α → α → Id Bool} {P : α → Prop}
  (agrees : ∀ a b, P a → P b → less a b = pure (decide (rank a < rank b)))

include agrees

/-- The place that bisection finds has no greater item in front of it and only greater ones behind. -/
theorem insertionPlace_spec {x : α} {xs : List α} (hx : P x) (all : ∀ a ∈ xs, P a)
    (ordered : xs.Pairwise fun a b => rank a ≤ rank b) {low high : Nat} (le : low ≤ high)
    (inside : high ≤ xs.length) (before : ∀ i (h : i < xs.length), i < low → rank xs[i] ≤ rank x)
    (behind : ∀ i (h : i < xs.length), high ≤ i → rank x < rank xs[i]) :
    ∃ place, insertionPlace less x xs low high = pure place ∧
      (∀ i (h : i < xs.length), i < place → rank xs[i] ≤ rank x) ∧
      ∀ i (h : i < xs.length), place ≤ i → rank x < rank xs[i] := by
  generalize size : high - low = n
  induction n using Nat.strongRecOn generalizing low high with
  | ind n ih =>
    rw [insertionPlace]
    split
    · rename_i room
      have middle : low + (high - low) / 2 < xs.length := by omega
      set m := low + (high - low) / 2 with hm
      dsimp only
      rw [List.getElem?_eq_getElem middle]
      dsimp only
      rw [agrees _ _ hx (all _ (List.getElem_mem middle)), pure_bind]
      have sorted := List.pairwise_iff_getElem.mp ordered
      by_cases less : rank x < rank xs[m]
      · rw [if_pos (by simpa using less)]
        refine ih (m - low) (by omega) (by omega) (by omega) before (fun i h le => ?_) rfl
        rcases Nat.eq_or_lt_of_le le with rfl | lt
        · exact less
        · exact less.trans_le (sorted m i middle h lt)
      · rw [if_neg (by simpa using less)]
        refine ih (high - (m + 1)) (by omega) (by omega) inside (fun i h lt => ?_) behind rfl
        rcases Nat.eq_or_lt_of_le (Nat.le_of_lt_succ lt) with rfl | lt
        · exact not_lt.mp less
        · exact (sorted i m h middle lt).trans (not_lt.mp less)
    · obtain rfl : low = high := by omega
      exact ⟨low, rfl, before, behind⟩

/-- An item is put behind those of its own rank. -/
theorem sorts_insertSorted {x : α} {sorted xs : List α} (hx : P x) (all : ∀ a ∈ xs, P a)
    (h : Sorts rank sorted xs) :
    ∃ sorted', insertSorted less x sorted = pure sorted' ∧ Sorts rank sorted' (xs ++ [x]) := by
  obtain ⟨place, run, before, behind⟩ := insertionPlace_spec agrees hx
    (fun a ha => all a (h.mem_iff.mp ha)) h.ordered (Nat.zero_le _) (Nat.le_refl _) (fun _ _ => nofun)
    (fun i inside le => absurd inside (Nat.not_lt.mpr le))
  have before : ∀ a ∈ sorted.take place, rank a ≤ rank x := fun a ha => by
    obtain ⟨i, hi, rfl⟩ := List.mem_take_iff_getElem.mp ha
    exact before i (by omega) (by omega)
  have behind : ∀ a ∈ sorted.drop place, rank x < rank a := fun a ha => by
    obtain ⟨i, hi, rfl⟩ := List.mem_drop_iff_getElem.mp ha
    exact behind (place + i) (by omega) (Nat.le_add_right ..)
  have ordered := h.ordered
  have stable := h.stable
  rw [← List.take_append_drop place sorted] at ordered stable
  refine ⟨sorted.take place ++ x :: sorted.drop place, by rw [insertSorted, run, pure_bind], ?_, ?_⟩
  · obtain ⟨front, back, across⟩ := List.pairwise_append.mp ordered
    refine List.pairwise_append.mpr ⟨front, List.pairwise_cons.mpr ⟨fun a ha => (behind a ha).le, back⟩,
      fun a ha b hb => ?_⟩
    rcases List.mem_cons.mp hb with rfl | hb
    · exact before a ha
    · exact across a ha b hb
  · intro k
    have stable := stable k
    rw [List.filter_append] at stable ⊢
    rw [List.filter_append, ← stable]
    by_cases here : rank x = k
    · have none : (sorted.drop place).filter (fun a => rank a = k) = [] :=
        List.filter_eq_nil_iff.mpr fun a ha => by simpa using (here ▸ behind a ha).ne'
      simp [here, none]
    · simp [here]

/-! ## 2. The start that is in order -/

/-- The start that is taken off, its last item first: every item is below those in front of it, or
none is. -/
theorem orderedStart_spec {falling : Bool} {last : α} {taken xs : List α}
    (all : ∀ a ∈ last :: taken ++ xs, P a)
    (steps : (last :: taken).Pairwise fun a b => decide (rank a < rank b) = falling) :
    ∃ taken' rest, orderedStart less falling last (last :: taken) xs = pure (taken', rest) ∧
      taken'.reverse ++ rest = (last :: taken).reverse ++ xs ∧
      taken'.Pairwise fun a b => decide (rank a < rank b) = falling := by
  induction xs generalizing last taken with
  | nil => exact ⟨last :: taken, [], rfl, rfl, steps⟩
  | cons x xs ih =>
    rw [orderedStart, agrees x last (all x (by simp)) (all last (by simp)), pure_bind]
    by_cases step : decide (rank x < rank last) = falling
    · have steps : (x :: last :: taken).Pairwise fun a b => decide (rank a < rank b) = falling := by
        refine List.pairwise_cons.mpr ⟨fun a ha => ?_, steps⟩
        rcases List.mem_cons.mp ha with rfl | ha
        · exact step
        · have next := (List.pairwise_cons.mp steps).1 a ha
          cases falling <;> simp only [decide_eq_true_eq, decide_eq_false_iff_not, not_lt] at *
          · exact next.trans step
          · exact step.trans next
      obtain ⟨taken', rest, run, whole, steps⟩ := ih (fun a ha => all a (by
        simp only [List.cons_append, List.mem_cons, List.mem_append] at ha ⊢
        tauto)) steps
      exact ⟨taken', rest, by simpa [step] using run, by simpa using whole, steps⟩
    · exact ⟨last :: taken, x :: xs, by simp [step], rfl, steps⟩

/-- **The sort is stable.** -/
theorem sorts_sortBy {xs : List α} (all : ∀ a ∈ xs, P a) :
    ∃ sorted, sortBy less xs = pure sorted ∧ Sorts rank sorted xs := by
  have insertAll {sorted xs : List α} (rest : List α) (all : ∀ a ∈ xs ++ rest, P a)
      (h : Sorts rank sorted xs) :
      ∃ sorted', rest.foldlM (fun sorted x => insertSorted less x sorted) sorted = pure sorted' ∧
        Sorts rank sorted' (xs ++ rest) := by
    induction rest generalizing sorted xs with
    | nil => exact ⟨sorted, rfl, by simpa using h⟩
    | cons x rest ih =>
      obtain ⟨sorted', run, h⟩ := sorts_insertSorted agrees (all x (by simp))
        (fun a ha => all a (by simp [ha])) h
      obtain ⟨sorted'', run', h⟩ := ih (by simpa using all) h
      exact ⟨sorted'', by rw [List.foldlM_cons, run, pure_bind, run'], by simpa using h⟩
  match xs with
  | [] => exact ⟨[], rfl, .nil, fun _ => rfl⟩
  | [x] => exact ⟨[x], rfl, List.pairwise_singleton .., fun _ => rfl⟩
  | x :: y :: rest =>
    have both : ∀ a ∈ y :: [x] ++ rest, P a := fun a ha => all a (by
      simp only [List.cons_append, List.nil_append, List.mem_cons] at ha ⊢
      tauto)
    have step : [y, x].Pairwise fun a b => decide (rank a < rank b) = decide (rank y < rank x) := by
      simp
    obtain ⟨taken, rest', run, whole, steps⟩ := orderedStart_spec agrees both step
    have whole : taken.reverse ++ rest' = x :: y :: rest := whole
    obtain ⟨sorted, run', h⟩ := insertAll rest' (whole ▸ all) (sorts_start steps)
    refine ⟨sorted, ?_, whole ▸ h⟩
    rw [sortBy, agrees y x (all y (by simp)) (all x (by simp)), pure_bind, run, pure_bind]
    exact run'

end

/-! ## 3. Items changed in what the test does not see -/

section Map

variable {m : Type → Type} [Monad m] {α : Type} {less : α → α → m Bool} {g : α → α}
  (blind : ∀ a b, less (g a) (g b) = less a b)

include blind

theorem insertionPlace_map (x : α) (xs : List α) (low high : Nat) :
    insertionPlace less (g x) (xs.map g) low high = insertionPlace less x xs low high := by
  generalize size : high - low = n
  induction n using Nat.strongRecOn generalizing low high with
  | ind n ih =>
    rw [insertionPlace, insertionPlace]
    split
    · rename_i room
      dsimp only
      rw [List.getElem?_map]
      cases xs[low + (high - low) / 2]? with
      | none => rfl
      | some y =>
        dsimp only [Option.map_some]
        rw [blind]
        refine congrArg _ (funext fun below => ?_)
        cases below
        · exact ih _ (by omega) _ _ rfl
        · exact ih _ (by omega) _ _ rfl
    · rfl

variable [LawfulMonad m]

theorem insertSorted_map (x : α) (xs : List α) :
    insertSorted less (g x) (xs.map g) = List.map g <$> insertSorted less x xs := by
  simp [insertSorted, insertionPlace_map blind, List.map_take, List.map_drop]

theorem orderedStart_map (falling : Bool) (last : α) (taken xs : List α) :
    orderedStart less falling (g last) (taken.map g) (xs.map g) =
      (fun (front, rest) => (front.map g, rest.map g)) <$> orderedStart less falling last taken xs := by
  induction xs generalizing last taken with
  | nil => simp [orderedStart]
  | cons x xs ih =>
    rw [List.map_cons, orderedStart, orderedStart, blind, map_bind]
    refine congrArg _ (funext fun below => ?_)
    split
    · exact ih x (x :: taken)
    · simp

/-- **The sort takes every item as a whole.** -/
theorem sortBy_map (xs : List α) : sortBy less (xs.map g) = List.map g <$> sortBy less xs := by
  have insertAll (sorted rest : List α) :
      (rest.map g).foldlM (fun sorted x => insertSorted less x sorted) (sorted.map g) =
        List.map g <$> rest.foldlM (fun sorted x => insertSorted less x sorted) sorted := by
    induction rest generalizing sorted with
    | nil => simp
    | cons x rest ih =>
      rw [List.map_cons, List.foldlM_cons, List.foldlM_cons, insertSorted_map blind, map_bind,
        bind_map_left]
      exact congrArg _ (funext ih)
  match xs with
  | [] => simp [sortBy]
  | [x] => simp [sortBy]
  | x :: y :: rest =>
    rw [List.map_cons, List.map_cons, sortBy, sortBy, blind, map_bind]
    refine congrArg _ (funext fun falling => ?_)
    have start := orderedStart_map blind falling y [y, x] rest
    rw [List.map_cons, List.map_cons, List.map_nil] at start
    rw [start, map_bind, bind_map_left]
    refine congrArg _ (funext fun (taken, rest) => ?_)
    dsimp only
    split
    · exact insertAll taken rest
    · rw [← List.map_reverse]
      exact insertAll taken.reverse rest

end Map

/-! ## 4. The number of items -/

section Length

variable {α : Type} (less : α → α → Id Bool)

theorem length_insertSorted (x : α) (xs : List α) :
    (insertSorted less x xs : Id (List α)).run.length = xs.length + 1 := by
  simp only [insertSorted, Id.run_bind, Id.run_pure, List.length_append, List.length_cons,
    List.length_take, List.length_drop]
  omega

theorem length_orderedStart (falling : Bool) (last : α) (taken xs : List α) :
    (orderedStart less falling last taken xs).run.1.length +
      (orderedStart less falling last taken xs).run.2.length = taken.length + xs.length := by
  induction xs generalizing last taken with
  | nil => rfl
  | cons x xs ih =>
    rw [orderedStart, Id.run_bind]
    split
    · rw [ih x (x :: taken), List.length_cons, List.length_cons]
      omega
    · rfl

/-- **The sort loses no item**, whatever the test says. -/
theorem length_sortBy (xs : List α) : (sortBy less xs).run.length = xs.length := by
  have insertAll (rest sorted : List α) :
      (rest.foldlM (fun sorted x => insertSorted less x sorted) sorted : Id (List α)).run.length =
        sorted.length + rest.length := by
    induction rest generalizing sorted with
    | nil => rfl
    | cons x rest ih =>
      rw [List.foldlM_cons, Id.run_bind, ih, length_insertSorted, List.length_cons]
      omega
  match xs with
  | [] => rfl
  | [x] => rfl
  | x :: y :: rest =>
    have start := length_orderedStart less (less y x).run y [y, x] rest
    rw [sortBy, Id.run_bind, Id.run_bind, insertAll]
    split
    · exact start.trans (by simp; omega)
    · rw [List.length_reverse]
      exact start.trans (by simp; omega)

end Length

end Haulage
