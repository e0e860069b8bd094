/-
# Computing with scalars

Truth values, integers, floats and texts are the scalars: what formulas without variables compute
with.  An operation on scalars gives a scalar, or fails in a way that evaluation takes for the
formula's own fault.  `Ensures` says such things of a result, and passes from one step of a
computation to the next.

The spread is the one exception.  Among numbers that are not all finite it asks a float for what
only a fraction has (`spread_cases`), and that is no fault of the formula.
-/
import Haulage.Formula.Function
import Haulage.Proofs.Number.Order

namespace Haulage

/-! ## 1. Results -/

/-- The value of a result is of one kind, or its fault of another. -/
def Ensures {ε α : Type} (fault : ε → Prop) (good : α → Prop) : Except ε α → Prop
  | .ok a => good a
  | .error f => fault f

namespace Ensures

variable {ε α β : Type} {fault : ε → Prop} {good good' : α → Prop} {next : β → Prop}
  {r : Except ε α}

theorem bind {k : α → Except ε β} (h : Ensures fault good r)
    (step : ∀ a, good a → Ensures fault next (k a)) : Ensures fault next (r >>= k) := by
  cases r with
  | error f => exact h
  | ok a => exact step a h

theorem map {g : α → β} (h : Ensures fault good r) (step : ∀ a, good a → next (g a)) :
    Ensures fault next (r.map g) := by
  cases r with
  | error f => exact h
  | ok a => exact step a h

theorem mapError {ε' : Type} {fault' : ε' → Prop} {g : ε → ε'} (h : Ensures fault good r)
    (step : ∀ f, fault f → fault' (g f)) : Ensures fault' good (r.mapError g) := by
  cases r with
  | error f => exact step f h
  | ok a => exact h

theorem mapM {f : α → Except ε β} {xs : List α} (step : ∀ a ∈ xs, Ensures fault next (f a)) :
    Ensures fault (fun ys => ∀ b ∈ ys, next b) (xs.mapM f) := by
  induction xs with
  | nil => exact List.forall_mem_nil _
  | cons a xs ih =>
    obtain ⟨first, rest⟩ := List.forall_mem_cons.mp step
    rw [List.mapM_cons]
    exact first.bind fun b hb => (ih rest).bind fun bs hbs => List.forall_mem_cons.mpr ⟨hb, hbs⟩

theorem foldlM {f : β → α → Except ε β} {xs : List α} {b : β} (all : ∀ a ∈ xs, good a)
    (step : ∀ b a, next b → good a → Ensures fault next (f b a)) (start : next b) :
    Ensures fault next (xs.foldlM f b) := by
  induction xs generalizing b with
  | nil => exact start
  | cons a xs ih =>
    obtain ⟨first, rest⟩ := List.forall_mem_cons.mp all
    rw [List.foldlM_cons]
    exact (step b a start first).bind fun b hb => ih rest hb

end Ensures

theorem forall₂_of_mapM {ε α β : Type} {f : α → Except ε β} {xs : List α} {ys : List β}
    (h : xs.mapM f = .ok ys) : List.Forall₂ (fun a b => f a = .ok b) xs ys := by
  induction xs generalizing ys with
  | nil =>
    cases h
    exact .nil
  | cons a xs ih =>
    rw [List.mapM_cons] at h
    cases first : f a with
    | error e => simp [first, bind, Except.bind] at h
    | ok b =>
      cases rest : xs.mapM f with
      | error e => simp [first, rest, bind, Except.bind] at h
      | ok bs =>
        obtain rfl : b :: bs = ys := by
          simpa [first, rest, bind, Except.bind, pure, Except.pure] using h
        exact .cons first (ih rest)

/-! ## 2. Sorting -/

section Sorting

variable {ε α : Type} {fault : ε → Prop} {good : α → Prop} {less : α → α → Except ε Bool}
  (compares : ∀ a b, good a → good b → Ensures fault (fun _ => True) (less a b))

include compares

theorem ensures_insertionPlace {x : α} {xs : List α} (hx : good x) (all : ∀ a ∈ xs, good a)
    (low high : Nat) : Ensures fault (fun _ => True) (insertionPlace less x xs low high) := by
  generalize size : high - low = n
  induction n using Nat.strongRecOn generalizing low high with
  | ind n ih =>
    rw [insertionPlace]
    split
    · dsimp only
      split
      · trivial
      · rename_i y found
        refine (compares x y hx (all y (List.mem_of_getElem? found))).bind fun below _ => ?_
        cases below
        · exact ih _ (by omega) _ _ rfl
        · exact ih _ (by omega) _ _ rfl
    · trivial

theorem ensures_insertSorted {x : α} {xs : List α} (hx : good x) (all : ∀ a ∈ xs, good a) :
    Ensures fault (fun ys => ∀ a ∈ ys, good a) (insertSorted less x xs) := by
  refine (ensures_insertionPlace compares hx all 0 xs.length).bind fun place _ a ha => ?_
  rcases List.mem_append.mp ha with front | back
  · exact all a (List.mem_of_mem_take front)
  · rcases List.mem_cons.mp back with rfl | back
    · exact hx
    · exact all a (List.mem_of_mem_drop back)

theorem ensures_orderedStart (falling : Bool) {last : α} {taken xs : List α} (hl : good last)
    (front : ∀ a ∈ taken, good a) (all : ∀ a ∈ xs, good a) :
    Ensures fault (fun (taken, rest) => (∀ a ∈ taken, good a) ∧ ∀ a ∈ rest, good a)
      (orderedStart less falling last taken xs) := by
  induction xs generalizing last taken with
  | nil => exact ⟨front, all⟩
  | cons x xs ih =>
    obtain ⟨hx, rest⟩ := List.forall_mem_cons.mp all
    rw [orderedStart]
    refine (compares x last hx hl).bind fun below _ => ?_
    split
    · exact ih hx (List.forall_mem_cons.mpr ⟨hx, front⟩) rest
    · exact ⟨front, all⟩

/-- A sort gives what it was given, or fails as its test does. -/
theorem ensures_sortBy {xs : List α} (all : ∀ a ∈ xs, good a) :
    Ensures fault (fun ys => ∀ a ∈ ys, good a) (sortBy less xs) := by
  match xs with
  | [] => exact all
  | [x] => exact all
  | x :: y :: rest =>
    obtain ⟨hx, hy, rest⟩ : good x ∧ good y ∧ ∀ a ∈ rest, good a := by
      simpa using all
    rw [sortBy]
    refine (compares y x hy hx).bind fun falling _ => ?_
    refine (ensures_orderedStart compares falling hy (by simp [hx, hy]) rest).bind
      fun (taken, rest) ⟨front, back⟩ => ?_
    refine Ensures.foldlM back (fun sorted a hs ha => ensures_insertSorted compares ha hs) ?_
    split
    · exact front
    · simpa using front

end Sorting

/-! ## 3. Scalars -/

/-- Is the fault one that evaluation takes for the formula's own? -/
def ValueFault.Own (f : ValueFault) : Prop := Fault.isFormulas f = true

namespace Value

/-- Is the value a truth value, a number or a text? -/
def IsScalar : Value → Prop
  | bool _ | int _ | float _ | text _ => True
  | _ => False

/-- The result is a scalar, or its fault the formula's own. -/
abbrev Tame : Except ValueFault Value → Prop := Ensures ValueFault.Own IsScalar

theorem isScalar_ofNumber (n : Number) : (ofNumber n).IsScalar := by
  cases n <;> trivial

theorem own_toFloat (n : Number) : Ensures ValueFault.Own (fun _ => True) n.toFloat := by
  unfold Number.toFloat
  split
  · trivial
  · rfl

theorem own_combine (exact : Int → Int → Int) (inexact : Float → Float → Float) (m n : Number) :
    Ensures ValueFault.Own (fun _ => True) (combine exact inexact m n) := by
  unfold combine
  split
  · trivial
  · exact (own_toFloat m).bind fun x _ => (own_toFloat n).bind fun y _ => trivial

theorem own_divideNumbers (m n : Number) :
    Ensures ValueFault.Own (fun _ => True) (divideNumbers m n) := by
  unfold divideNumbers
  split
  · unfold divideIntegers
    split
    · rfl
    · dsimp only
      split
      · trivial
      · rfl
  · refine (own_toFloat m).bind fun x _ => (own_toFloat n).bind fun y _ => ?_
    split
    · rfl
    · trivial

theorem own_floorInteger (x : Float) : Ensures ValueFault.Own (fun _ => True) (floorInteger x) := by
  unfold floorInteger
  split
  · trivial
  · split <;> rfl

theorem own_ceilInteger (x : Float) : Ensures ValueFault.Own (fun _ => True) (ceilInteger x) := by
  unfold ceilInteger
  split
  · trivial
  · split <;> rfl

theorem own_related (r : Relation) {a b : Value} (ha : a.IsScalar) (hb : b.IsScalar) :
    Ensures ValueFault.Own (fun _ => True) (related r a b) := by
  unfold related
  split
  · trivial
  · exact ha.elim
  · split
    · split <;> trivial
    · rfl

theorem own_toReal {v : Value} (h : v.IsScalar) :
    Ensures ValueFault.Own (fun _ => True) v.toReal := by
  unfold toReal
  split
  · exact own_toFloat _
  · exact h.elim
  · rfl

theorem own_truncate (x : Float) : Ensures ValueFault.Own (fun _ => True) (truncate x) := by
  unfold truncate
  split
  · trivial
  · split <;> rfl

theorem own_textToInteger (s : Text) :
    Ensures ValueFault.Own (fun _ => True) (textToInteger s) := by
  unfold textToInteger
  split
  · rfl
  · split
    · rfl
    · trivial

theorem own_toInteger (v : Value) : Ensures ValueFault.Own (fun _ => True) v.toInteger := by
  cases v with
  | bool | int => trivial
  | float x => exact own_truncate x
  | text s => exact own_textToInteger s
  | decimal d => cases d with
    | finite => trivial
    | _ => rfl
  | _ => rfl

section One

variable (v : Value)

theorem tame_negate : Tame v.negate := by
  unfold negate
  split
  · trivial
  · trivial
  · rfl

theorem tame_affirm : Tame v.affirm := by
  unfold affirm
  split
  · exact isScalar_ofNumber _
  · rfl

theorem tame_absolute : Tame v.absolute := by
  unfold absolute
  split
  · trivial
  · trivial
  · rfl

end One

theorem tame_subtract (a b : Value) : Tame (a.subtract b) := by
  unfold subtract
  split
  · exact (own_combine _ _ _ _).map fun n _ => isScalar_ofNumber n
  · rfl

theorem tame_divide (a b : Value) : Tame (a.divide b) := by
  unfold divide
  split
  · exact (own_divideNumbers _ _).map fun _ _ => trivial
  · rfl

theorem tame_repeated {a : Value} (ha : a.IsScalar) (b : Value) : Tame (a.repeated b) := by
  unfold repeated
  split
  · split
    · rfl
    · split
      · trivial
      · exact ha.elim
      · exact ha
  · rfl

section Two

variable {a b : Value} (ha : a.IsScalar) (hb : b.IsScalar)

include ha hb

theorem tame_add : Tame (a.add b) := by
  unfold add
  split
  · exact (own_combine _ _ _ _).map fun n _ => isScalar_ofNumber n
  · split
    · trivial
    · exact ha.elim
    · rfl
    · exact ha.elim
    · rfl

theorem tame_raise : Tame (a.raise b) := by
  refine (own_toReal ha).bind fun x _ => (own_toReal hb).bind fun y _ => ?_
  unfold raised
  split
  · trivial
  · rfl
  · rfl

theorem tame_multiply : Tame (a.multiply b) := by
  unfold multiply
  split
  · exact (own_combine _ _ _ _).map fun n _ => isScalar_ofNumber n
  · split
    · exact tame_repeated ha b
    · split
      · exact tame_repeated hb a
      · rfl

end Two

theorem tame_modulo (a : Value) {b : Value} (hb : b.IsScalar) : Tame (a.modulo b) := by
  unfold modulo
  split
  · rfl
  · refine (tame_divide a b).bind fun q hq => (own_toReal hq).bind fun x _ => ?_
    refine (own_floorInteger x).bind fun whole _ => ?_
    exact (tame_multiply hb (b := int whole) trivial).bind fun p _ => tame_subtract a p

/-! ## 4. Scalars in a row -/

theorem own_contribution (v : Value) : Ensures ValueFault.Own (fun _ => True) v.contribution := by
  unfold contribution
  split
  · rfl
  · split <;> trivial

theorem own_nearestFloat (f : Fraction) :
    Ensures ValueFault.Own (fun _ => True) (nearestFloat f) := by
  unfold nearestFloat
  dsimp only
  split
  · trivial
  · rfl

theorem tame_mean (vs : List Value) : Tame (mean vs) := by
  unfold mean
  refine (Ensures.mapM fun v _ => own_contribution v).bind fun cs _ => ?_
  split
  · split
    · dsimp only
      split
      · trivial
      · exact (own_nearestFloat _).map fun _ _ => trivial
    · trivial
  · rfl

/-- Are the values two or more numbers, of which one is not finite? -/
def Unbounded (vs : List Value) : Prop :=
  (∀ v ∈ vs, v.number?.isSome) ∧ 2 ≤ vs.length ∧ ∃ x, float x ∈ vs ∧ x.isFinite = false

theorem fraction?_eq_none_iff {x : Float} : Exact.fraction? x = none ↔ x.isFinite = false := by
  have finite : x.isFinite = x.toModel.unpack.isFinite := rfl
  unfold Exact.fraction?
  rw [finite]
  cases x.toModel.unpack <;> simp [Float.Model.UnpackedFloat.isFinite]

theorem contribution_eq_inr_iff {v : Value} {x : Float} :
    v.contribution = .ok (.inr x) ↔ v = float x ∧ x.isFinite = false := by
  unfold contribution
  cases v with
  | float y =>
    simp only [number?, Number.fraction?]
    cases h : Exact.fraction? y with
    | none =>
      simp only [Except.ok.injEq, Sum.inr.injEq, float.injEq, iff_self_and]
      rintro rfl
      exact fraction?_eq_none_iff.mp h
    | some f =>
      simp only [Except.ok.injEq, reduceCtorEq, float.injEq, false_iff, not_and]
      rintro rfl finite
      rw [fraction?_eq_none_iff.mpr finite] at h
      cases h
  | _ => simp [number?, Number.fraction?]

theorem exists_contribution_iff {v : Value} :
    (∃ c, v.contribution = .ok c) ↔ v.number?.isSome := by
  unfold contribution
  cases v.number? with
  | none => simp
  | some n =>
    cases n with
    | int n => simp [Number.fraction?]
    | float x => cases h : Exact.fraction? x <;> simp [Number.fraction?, h]

/-- All values of a row contribute something only if all are numbers. -/
theorem not_numbers_of_contributions {vs : List Value} {f : ValueFault}
    (h : vs.mapM contribution = .error f) : ¬ ∀ v ∈ vs, v.number?.isSome := by
  intro numbers
  have contributes : ∀ v ∈ vs, Ensures (fun _ => False) (fun _ => True) (contribution v) :=
    fun v mem => by
      obtain ⟨c, hc⟩ := exists_contribution_iff.mpr (numbers v mem)
      rw [hc]
      trivial
  have none := Ensures.mapM contributes
  rwa [h] at none

/-- Contributions are of numbers only, and some of them are floats that are not finite if and only
if some of the numbers are. -/
theorem numbers_of_contributions {vs : List Value} {cs : List (Fraction ⊕ Float)}
    (h : vs.mapM contribution = .ok cs) :
    (∀ v ∈ vs, v.number?.isSome) ∧
      (otherPart cs ≠ [] ↔ ∃ x, float x ∈ vs ∧ x.isFinite = false) := by
  have pairs := forall₂_of_mapM h
  clear h
  induction pairs with
  | nil => simp [otherPart]
  | @cons v c vs cs first rest ih =>
    refine ⟨List.forall_mem_cons.mpr ⟨exists_contribution_iff.mp ⟨c, first⟩, ih.1⟩, ?_⟩
    cases c with
    | inl f =>
      have other (x : Float) (finite : x.isFinite = false) : float x ≠ v := by
        rintro rfl
        rw [contribution_eq_inr_iff.mpr ⟨rfl, finite⟩] at first
        cases first
      have same : otherPart (.inl f :: cs) = otherPart cs := rfl
      rw [same, ih.2]
      refine exists_congr fun x => and_congr_left fun finite => ?_
      simp [other x finite]
    | inr x =>
      obtain ⟨rfl, finite⟩ := contribution_eq_inr_iff.mp first
      have some : otherPart (.inr x :: cs) ≠ [] := nofun
      exact iff_of_true some ⟨x, .head _, finite⟩

/-- **A spread fails for want of a fraction** exactly if it is of numbers that are not all finite,
and else it is a scalar or fails as other operations do. -/
theorem spread_cases (vs : List Value) :
    Unbounded vs ∧ spread vs = .error .notFiniteSpread ∨ ¬ Unbounded vs ∧ Tame (spread vs) := by
  unfold spread
  cases run : vs.mapM contribution with
  | error f =>
    have own : f.Own := by
      have each : ∀ v ∈ vs, Ensures ValueFault.Own (fun _ => True) (contribution v) :=
        fun v _ => own_contribution v
      have all := Ensures.mapM each
      rwa [run] at all
    exact .inr ⟨fun h => not_numbers_of_contributions run h.1, own⟩
  | ok cs =>
    obtain ⟨numbers, others⟩ := numbers_of_contributions run
    change _ ∧ (if vs.length < 2 then _ else if !(otherPart cs).isEmpty then _ else _) = _ ∨
      _ ∧ Tame (if vs.length < 2 then _ else if !(otherPart cs).isEmpty then _ else _)
    by_cases few : vs.length < 2
    · rw [if_pos few]
      exact .inr ⟨fun h => absurd h.2.1 (by omega), rfl⟩
    rw [if_neg few]
    by_cases finite : otherPart cs = []
    · rw [finite, if_neg (by simp)]
      refine .inr ⟨fun h => others.mpr h.2.2 finite, ?_⟩
      dsimp only
      split
      · trivial
      · rfl
    · rw [if_pos (by simpa using finite)]
      exact .inl ⟨⟨numbers, by omega, others.mp finite⟩, rfl⟩

section Row

variable {vs : List Value} (all : ∀ v ∈ vs, v.IsScalar)

include all

theorem tame_extremum (name : String) (beats : Relation) : Tame (extremum name beats vs) := by
  cases vs with
  | nil => rfl
  | cons v vs =>
    obtain ⟨hv, rest⟩ := List.forall_mem_cons.mp all
    refine Ensures.foldlM rest (fun best v hb hv => ?_) hv
    refine (own_related beats hv hb).bind fun beaten _ => ?_
    cases beaten
    · exact hb
    · exact hv

theorem tame_total : Tame (total vs) :=
  Ensures.foldlM all (fun _ _ hs hv => tame_add hs hv) trivial

theorem tame_median : Tame (median vs) := by
  have compares (a b : Value) (ha : a.IsScalar) (hb : b.IsScalar) :
      Ensures ValueFault.Own (fun _ => True) (related .less a b) := own_related .less ha hb
  refine (ensures_sortBy compares all).bind fun sorted scalar => ?_
  unfold middleOf
  dsimp only
  split
  · have inside : sorted.length / 2 < sorted.length := by omega
    rw [List.getElem?_eq_getElem inside]
    exact scalar _ (List.getElem_mem inside)
  · split
    · rename_i a b low high
      exact (tame_add (scalar a (List.mem_of_getElem? low))
        (scalar b (List.mem_of_getElem? high))).bind fun sum _ => tame_divide sum _
    · rfl

end Row

end Value

end Haulage
