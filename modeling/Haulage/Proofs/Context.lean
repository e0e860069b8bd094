/-
# What becomes of the entries of a context

A context is made of entries one after the other: an entry under the name or the key of a quantity sets
the quantity, one under a key of the date the date, and any other is a variable of the caller's own.
The variables that a formula sees are these and the quantities that are set.

So what an entry does to the variables can be said without the context (`lookup_set`): it puts its value
under the name of its variable, which is the name of the quantity for a quantity's key and otherwise the
key itself; a quantity that is null is left out; and the date is no variable.  `variablesOf` says this of
all entries at once, and the variables of a context are these and no others (`asVariables_ofEntries`).
A context is also what its variables describe, but for the date (`ofEntries_asVariables`), so taking it
through them once more changes nothing.
-/
import Haulage.Context
import Mathlib.Data.List.Induction
import Mathlib.Data.List.Nodup

namespace Haulage

/-! ## 1. Entries with distinct keys -/

section Entries

variable {α : Type} {entries : List (Text × α)}

/-- Of entries put one after the other the last one under a key is found. -/
theorem lookup_foldl_putEntry (key : Text) (pairs entries : List (Text × α)) :
    (pairs.foldl (fun entries (k, v) => putEntry k v entries) entries).lookup key =
      (pairs.reverse.lookup key).or (entries.lookup key) := by
  induction pairs generalizing entries with
  | nil => rfl
  | cons pair pairs ih =>
    obtain ⟨k, v⟩ := pair
    rw [List.foldl_cons, ih, List.reverse_cons, List.lookup_append, Option.or_assoc]
    congr 1
    by_cases same : key = k
    · subst same
      simp
    · rw [lookup_putEntry_of_ne same]
      simp [List.lookup_cons, beq_eq_false_iff_ne.mpr same]

theorem not_mem_of_nodup_append {behind : List (Text × α)} {key : Text} {a : α}
    (distinct : ((entries ++ (key, a) :: behind).map Prod.fst).Nodup) :
    key ∉ entries.map Prod.fst := by
  intro old
  rw [List.map_append, List.map_cons] at distinct
  exact (List.nodup_append.mp distinct).2.2 _ old _ (.head _) rfl

/-- What is put under a new key comes last. -/
theorem putEntry_of_not_mem {key : Text} (new : key ∉ entries.map Prod.fst) (a : α) :
    putEntry key a entries = entries ++ [(key, a)] := by
  induction entries with
  | nil => rfl
  | cons entry entries ih =>
    rw [List.map_cons, List.mem_cons, not_or] at new
    have other : (entry.1 == key) = false := beq_eq_false_iff_ne.mpr (Ne.symm new.1)
    rw [putEntry, ih new.2]
    simp [other]

theorem map_fst_putEntry_of_mem {key : Text} (old : key ∈ entries.map Prod.fst) (a : α) :
    (putEntry key a entries).map Prod.fst = entries.map Prod.fst := by
  induction entries with
  | nil => cases old
  | cons entry entries ih =>
    rw [putEntry]
    split
    · rfl
    · rename_i other
      have old := (List.mem_cons.mp old).resolve_left fun same => other (beq_iff_eq.mpr same.symm)
      rw [List.map_cons, ih old, List.map_cons]

theorem nodup_putEntry (distinct : (entries.map Prod.fst).Nodup) (key : Text) (a : α) :
    ((putEntry key a entries).map Prod.fst).Nodup := by
  by_cases old : key ∈ entries.map Prod.fst
  · rwa [map_fst_putEntry_of_mem old]
  · rw [putEntry_of_not_mem old, List.map_append]
    refine List.nodup_append.mpr ⟨distinct, List.nodup_singleton _, ?_⟩
    rintro k there _ last rfl
    obtain rfl : k = key := List.mem_singleton.mp last
    exact old there

theorem mem_map_fst_putEntry {key k : Text} {a : α}
    (h : k ∈ (putEntry key a entries).map Prod.fst) : k = key ∨ k ∈ entries.map Prod.fst := by
  by_cases old : key ∈ entries.map Prod.fst
  · rw [map_fst_putEntry_of_mem old] at h
    exact .inr h
  · rw [putEntry_of_not_mem old, List.map_append] at h
    exact (List.mem_append.mp h).symm.imp_left List.mem_singleton.mp

theorem nodup_foldl_putEntry (pairs : List (Text × α)) (distinct : (entries.map Prod.fst).Nodup) :
    ((pairs.foldl (fun entries (k, v) => putEntry k v entries) entries).map Prod.fst).Nodup := by
  induction pairs generalizing entries with
  | nil => exact distinct
  | cons pair pairs ih => exact ih (nodup_putEntry distinct _ _)

/-- Pairs with new keys are added behind the entries. -/
theorem foldl_putEntry_eq_append {pairs : List (Text × α)}
    (distinct : ((entries ++ pairs).map Prod.fst).Nodup) :
    pairs.foldl (fun entries (k, v) => putEntry k v entries) entries = entries ++ pairs := by
  induction pairs generalizing entries with
  | nil => exact (List.append_nil _).symm
  | cons pair pairs ih =>
    rw [List.foldl_cons]
    dsimp only
    rw [putEntry_of_not_mem (not_mem_of_nodup_append distinct), ih (by simpa using distinct)]
    simp

theorem lookup_eq_some_iff_mem (distinct : (entries.map Prod.fst).Nodup) {key : Text} {a : α} :
    entries.lookup key = some a ↔ (key, a) ∈ entries := by
  rw [List.lookup_eq_some_iff]
  constructor
  · rintro ⟨front, behind, rfl, -⟩
    simp
  · intro mem
    obtain ⟨front, behind, rfl⟩ := List.append_of_mem mem
    refine ⟨front, behind, rfl, ?_⟩
    intro entry before
    refine bne_iff_ne.mpr ?_
    rintro rfl
    exact not_mem_of_nodup_append distinct (List.mem_map_of_mem before)

/-- Entries with distinct keys are the same, in some order, if the same is found under each key. -/
theorem perm_of_lookup {others : List (Text × α)} (distinct : (entries.map Prod.fst).Nodup)
    (distinct' : (others.map Prod.fst).Nodup)
    (same : ∀ key, entries.lookup key = others.lookup key) : entries.Perm others := by
  refine (List.perm_ext_iff_of_nodup (.of_map _ distinct) (.of_map _ distinct')).mpr ?_
  rintro ⟨key, a⟩
  rw [← lookup_eq_some_iff_mem distinct, ← lookup_eq_some_iff_mem distinct', same]

theorem lookup_filter (distinct : (entries.map Prod.fst).Nodup) (p : Text × α → Bool) (key : Text) :
    (entries.filter p).lookup key = (entries.lookup key).filter fun a => p (key, a) := by
  have distinct' : ((entries.filter p).map Prod.fst).Nodup :=
    distinct.sublist (List.filter_sublist.map _)
  ext a
  rw [lookup_eq_some_iff_mem distinct', List.mem_filter, ← lookup_eq_some_iff_mem distinct,
    Option.filter_eq_some_iff]

end Entries

theorem Value.isNull_iff {v : Value} : v.isNull = true ↔ v = .null := by
  cases v <;> simp [isNull]

/-! ## 2. Names and keys -/

namespace Quantity

theorem eq_of_name {p q : Quantity} (h : p.name.toList = q.name.toList) : p = q := by
  have unique : ∀ p ∈ all, ∀ q ∈ all, p.name.toList = q.name.toList → p = q := by decide
  exact unique p (mem_all p) q (mem_all q) h

/-- The name of the variable that an entry sets. -/
def variableName (s : Text) : Text :=
  match all.find? fun q => q.key.toList == s with
  | some q => q.name.toList
  | none => s

/-- Is the text the name of a quantity? -/
def isName (s : Text) : Bool := all.any fun q => q.name.toList == s

theorem isName_iff {s : Text} : isName s = true ↔ ∃ q : Quantity, q.name.toList = s := by
  simp [isName, mem_all]

@[simp] theorem of?_name (q : Quantity) : of? q.name.toList = some q := by
  cases q <;> decide

@[simp] theorem variableName_name (q : Quantity) : variableName q.name.toList = q.name.toList := by
  cases q <;> decide

theorem variableName_of_of? {s : Text} {q : Quantity} (h : of? s = some q) :
    variableName s = q.name.toList := by
  have texts := List.find?_some h
  rw [Bool.or_eq_true, beq_iff_eq, beq_iff_eq] at texts
  rcases texts with rfl | rfl
  · exact variableName_name q
  · cases q <;> decide

theorem variableName_of_none {s : Text} (h : of? s = none) :
    variableName s = s ∧ isName s = false := by
  have other (q : Quantity) : (q.name.toList == s) = false ∧ (q.key.toList == s) = false := by
    simpa using List.find?_eq_none.mp h q (mem_all q)
  constructor
  · have none : (all.find? fun q => q.key.toList == s) = none :=
      List.find?_eq_none.mpr fun q _ => by simp [other q]
    rw [variableName, none]
  · exact List.any_eq_false.mpr fun q _ => by simp [other q]

end Quantity

namespace Context

/-- Is the text a key of the date? -/
def isDateKey (s : Text) : Bool := dateKeys.any fun k => k.toList == s

theorem of?_of_isDateKey {s : Text} (h : isDateKey s = true) : Quantity.of? s = none := by
  obtain ⟨k, mem, rfl⟩ : ∃ k ∈ dateKeys, k.toList = s := by simpa [isDateKey] using h
  have apart : ∀ k ∈ dateKeys, Quantity.of? k.toList = none := by decide
  exact apart k mem

/-- The variables that entries set, each under its name. -/
def namedEntries (entries : List (Text × Value)) : List (Text × Value) :=
  (entries.filter fun (key, _) => !isDateKey key).map fun (key, v) => (Quantity.variableName key, v)

/-- A quantity is left out where it is null. -/
def isKept (entry : Text × Value) : Bool := !(Quantity.isName entry.1 && entry.2.isNull)

/-- The variables of a mapping: of two entries for one variable the later one counts, and a quantity
that is null in the end is left out. -/
def variablesOf (entries : List (Text × Value)) : List (Text × Value) :=
  (entriesOf (namedEntries entries)).filter isKept

/-! ## 3. What one entry does -/

/-- The caller's own variables have distinct names, which are neither those of quantities nor of the
date. -/
structure IsSeparate (c : Context) : Prop where
  distinct : (c.own.map Prod.fst).Nodup
  free : ∀ key ∈ c.own.map Prod.fst, Quantity.of? key = none ∧ isDateKey key = false

theorem set_quantity (c : Context) {key : Text} {q : Quantity} (h : Quantity.of? key = some q)
    (v : Value) :
    c.set key v = { c with standard := fun q' => if q' = q then v else c.standard q' } := by
  rw [set, h]

theorem set_date (c : Context) {key : Text} (h : isDateKey key = true) (v : Value) :
    c.set key v = { c with date := v } := by
  rw [set, of?_of_isDateKey h]
  exact if_pos h

theorem set_own (c : Context) {key : Text} (h : Quantity.of? key = none)
    (other : isDateKey key = false) (v : Value) :
    c.set key v = { c with own := putEntry key v c.own } := by
  rw [set, h]
  exact if_neg (by rw [← isDateKey, other]; exact Bool.false_ne_true)

/-- An entry is one of three. -/
theorem set_cases (key : Text) :
    (∃ q, Quantity.of? key = some q) ∨ isDateKey key = true ∨
      Quantity.of? key = none ∧ isDateKey key = false := by
  cases Quantity.of? key <;> cases isDateKey key <;> simp

theorem IsSeparate.set {c : Context} (h : c.IsSeparate) (key : Text) (v : Value) :
    (c.set key v).IsSeparate := by
  rcases set_cases key with ⟨q, quantity⟩ | date | ⟨none, other⟩
  · rw [set_quantity c quantity]
    exact ⟨h.distinct, h.free⟩
  · rw [set_date c date]
    exact ⟨h.distinct, h.free⟩
  · rw [set_own c none other]
    refine ⟨nodup_putEntry h.distinct key v, ?_⟩
    intro k mem
    rcases mem_map_fst_putEntry mem with rfl | old
    · exact ⟨none, other⟩
    · exact h.free k old

theorem isSeparate_ofEntries (entries : List (Text × Value)) : (ofEntries entries).IsSeparate := by
  have all : ∀ c : Context, c.IsSeparate →
      (entries.foldl (fun c (key, v) => c.set key v) c).IsSeparate := by
    intro c h
    induction entries generalizing c with
    | nil => exact h
    | cons entry entries ih => exact ih _ (h.set _ _)
  exact all empty ⟨List.nodup_nil, List.forall_mem_nil _⟩

/-- Under the name of a quantity stands what that quantity is set to. -/
theorem lookup_filterMap_quantity (f : Quantity → Option Value) (q : Quantity) (qs : List Quantity) :
    (qs.filterMap fun p => (f p).map fun v => (p.name.toList, v)).lookup q.name.toList =
      if q ∈ qs then f q else none := by
  induction qs with
  | nil => rfl
  | cons p qs ih =>
    by_cases same : q = p
    · subst same
      cases set : f q with
      | none =>
        rw [List.filterMap_cons_none (by simp [set]), ih, if_pos (List.mem_cons_self ..)]
        split <;> simp [set]
      | some v =>
        rw [List.filterMap_cons_some (by rw [set]; rfl), if_pos (List.mem_cons_self ..)]
        simp
    · have apart : (q.name.toList == p.name.toList) = false :=
        beq_eq_false_iff_ne.mpr fun names => same (Quantity.eq_of_name names)
      have member : q ∈ p :: qs ↔ q ∈ qs := by simp [same]
      simp only [member, ← ih]
      cases set : f p with
      | none => rw [List.filterMap_cons_none (by simp [set])]
      | some v =>
        rw [List.filterMap_cons_some (by rw [set]; rfl)]
        simp [List.lookup_cons, apart]

/-- A variable with the name of a quantity is the quantity, or where that is not set one of the
caller's own. -/
theorem lookup_asVariables (c : Context) (q : Quantity) :
    c.asVariables.lookup q.name.toList =
      if (c.standard q).isNull then c.own.lookup q.name.toList else some (c.standard q) := by
  have listed : c.setQuantities = Quantity.all.filterMap fun p =>
      (if (c.standard p).isNull then none else some (c.standard p)).map
        fun v => (p.name.toList, v) := by
    refine List.filterMap_congr fun p _ => ?_
    split <;> rfl
  rw [Context.asVariables, lookup_foldl_putEntry, listed, ← List.filterMap_reverse,
    lookup_filterMap_quantity, if_pos (List.mem_reverse.mpr (Quantity.mem_all q))]
  split <;> rfl

/-- Any other variable is one of the caller's own. -/
theorem lookup_asVariables_of_not_isName (c : Context) {name : Text}
    (other : Quantity.isName name = false) : c.asVariables.lookup name = c.own.lookup name := by
  have none : c.setQuantities.reverse.lookup name = none := by
    refine List.lookup_eq_none_iff.mpr ?_
    intro entry mem
    refine bne_iff_ne.mpr ?_
    rintro rfl
    obtain ⟨q, -, made⟩ := List.mem_filterMap.mp (List.mem_reverse.mp mem)
    split at made
    · cases made
    · cases made
      exact Bool.false_ne_true (other.symm.trans (Quantity.isName_iff.mpr ⟨q, rfl⟩))
  rw [asVariables, lookup_foldl_putEntry, none, Option.none_or]

theorem IsSeparate.lookup_name {c : Context} (h : c.IsSeparate) (q : Quantity) :
    c.asVariables.lookup q.name.toList =
      if (c.standard q).isNull then none else some (c.standard q) := by
  have none : c.own.lookup q.name.toList = none := by
    refine List.lookup_eq_none_iff.mpr ?_
    intro entry mem
    refine bne_iff_ne.mpr ?_
    intro same
    have free := (h.free entry.1 (List.mem_map_of_mem mem)).1
    rw [← same, Quantity.of?_name] at free
    cases free
  rw [lookup_asVariables, none]

/-- A variable is the same in two contexts if the quantity is that it names, or the caller's own
variable if it names none. -/
theorem lookup_asVariables_congr {c c' : Context} (h : c.IsSeparate) (h' : c'.IsSeparate)
    {name : Text} (quantity : ∀ q : Quantity, q.name.toList = name → c.standard q = c'.standard q)
    (own : Quantity.isName name = false → c.own.lookup name = c'.own.lookup name) :
    c.asVariables.lookup name = c'.asVariables.lookup name := by
  cases is : Quantity.isName name with
  | true =>
    obtain ⟨q, rfl⟩ := Quantity.isName_iff.mp is
    rw [h.lookup_name, h'.lookup_name, quantity q rfl]
  | false =>
    rw [lookup_asVariables_of_not_isName c is, lookup_asVariables_of_not_isName c' is, own is]

/-- **An entry puts its value under the name of its variable**, or takes the variable away, and
changes no other variable. -/
theorem lookup_set {c : Context} (h : c.IsSeparate) (key : Text) (v : Value) (name : Text) :
    (c.set key v).asVariables.lookup name =
      if isDateKey key = false ∧ name = Quantity.variableName key then
        (some v).filter fun v => isKept (name, v)
      else c.asVariables.lookup name := by
  have after := h.set key v
  rcases set_cases key with ⟨q, quantity⟩ | date | ⟨none, other⟩
  · have noDate : isDateKey key = false := by
      refine Bool.eq_false_iff.mpr ?_
      intro date
      rw [of?_of_isDateKey date] at quantity
      cases quantity
    rw [set_quantity c quantity] at after ⊢
    rw [Quantity.variableName_of_of? quantity]
    by_cases same : name = q.name.toList
    · subst same
      have is : Quantity.isName q.name.toList = true := Quantity.isName_iff.mpr ⟨q, rfl⟩
      rw [if_pos ⟨noDate, rfl⟩, after.lookup_name]
      simp only [↓reduceIte]
      cases null : v.isNull <;> simp [isKept, is, null, Option.filter]
    · rw [if_neg fun both => same both.2]
      refine lookup_asVariables_congr after h (fun p is => if_neg ?_) fun _ => rfl
      rintro rfl
      exact same is.symm
  · rw [set_date c date, if_neg (by simp [date])]
    rfl
  · obtain ⟨itself, notName⟩ := Quantity.variableName_of_none none
    rw [set_own c none other] at after ⊢
    rw [itself]
    by_cases same : name = key
    · subst same
      rw [if_pos ⟨other, rfl⟩, lookup_asVariables_of_not_isName _ notName, lookup_putEntry_self]
      simp [isKept, notName, Option.filter]
    · rw [if_neg fun both => same both.2]
      exact lookup_asVariables_congr after h (fun _ _ => rfl) fun _ => lookup_putEntry_of_ne same _ _

/-! ## 4. What all entries do -/

theorem namedEntries_append (entries : List (Text × Value)) (key : Text) (v : Value) :
    namedEntries (entries ++ [(key, v)]) =
      namedEntries entries ++ if isDateKey key then [] else [(Quantity.variableName key, v)] := by
  rw [namedEntries, List.filter_append, List.map_append, ← namedEntries]
  cases date : isDateKey key <;> simp [date]

theorem nodup_entriesOf (entries : List (Text × Value)) : ((entriesOf entries).map Prod.fst).Nodup :=
  nodup_foldl_putEntry _ List.nodup_nil

theorem lookup_variablesOf (entries : List (Text × Value)) (name : Text) :
    (variablesOf entries).lookup name =
      ((namedEntries entries).reverse.lookup name).filter fun v => isKept (name, v) := by
  rw [variablesOf, lookup_filter (nodup_entriesOf _), entriesOf, lookup_foldl_putEntry,
    List.lookup_nil, Option.or_none]

/-- The variables of a mapping are those of a context that it describes. -/
theorem lookup_asVariables_ofEntries (entries : List (Text × Value)) (name : Text) :
    (ofEntries entries).asVariables.lookup name = (variablesOf entries).lookup name := by
  induction entries using List.reverseRecOn with
  | nil => rfl
  | append_singleton entries entry ih =>
    obtain ⟨key, v⟩ := entry
    have last : ofEntries (entries ++ [(key, v)]) = (ofEntries entries).set key v := by
      rw [ofEntries, List.foldl_append, ← ofEntries, List.foldl_cons, List.foldl_nil]
    rw [last, lookup_set (isSeparate_ofEntries entries), ih, lookup_variablesOf, lookup_variablesOf,
      namedEntries_append, List.reverse_append, List.lookup_append]
    cases date : isDateKey key with
    | true => simp
    | false =>
      by_cases same : name = Quantity.variableName key
      · simp [same]
      · simp [same, List.lookup_cons, beq_eq_false_iff_ne.mpr same]

/-! ## 5. Back from the variables -/

theorem map_fst_setQuantities (c : Context) : (c.setQuantities.map Prod.fst).Sublist
    (Quantity.all.map fun q => q.name.toList) := by
  rw [setQuantities]
  induction Quantity.all with
  | nil => exact .slnil
  | cons q qs ih =>
    rw [List.filterMap_cons]
    split
    · exact ih.cons _
    · rename_i made
      split at made
      · cases made
      · cases made
        exact ih.cons_cons _

/-- The quantities that are set stand behind the caller's own variables. -/
theorem asVariables_eq_append {c : Context} (h : c.IsSeparate) :
    c.asVariables = c.own ++ c.setQuantities := by
  have names : (Quantity.all.map fun q => q.name.toList).Nodup := by decide
  refine foldl_putEntry_eq_append ?_
  rw [List.map_append, List.nodup_append]
  refine ⟨h.distinct, names.sublist c.map_fst_setQuantities, ?_⟩
  rintro key own _ quantity rfl
  obtain ⟨q, -, rfl⟩ := List.mem_map.mp (c.map_fst_setQuantities.subset quantity)
  have free := (h.free _ own).1
  rw [Quantity.of?_name] at free
  cases free

/-- The caller's own variables are put in as they are. -/
theorem foldl_set_own {c : Context} {pairs : List (Text × Value)}
    (free : ∀ key ∈ pairs.map Prod.fst, Quantity.of? key = none ∧ isDateKey key = false)
    (distinct : ((c.own ++ pairs).map Prod.fst).Nodup) :
    pairs.foldl (fun c (key, v) => c.set key v) c = { c with own := c.own ++ pairs } := by
  induction pairs generalizing c with
  | nil => rw [List.append_nil, List.foldl_nil]
  | cons pair pairs ih =>
    obtain ⟨key, v⟩ := pair
    obtain ⟨⟨none, other⟩, rest⟩ := List.forall_mem_cons.mp free
    rw [List.foldl_cons]
    dsimp only
    rw [set_own c none other, putEntry_of_not_mem (not_mem_of_nodup_append distinct),
      ih rest (by simpa using distinct)]
    simp

/-- Quantities are set one after the other. -/
theorem foldl_set_quantities (f : Quantity → Value) (qs : List Quantity) (c : Context) :
    (qs.filterMap fun q => if (f q).isNull then none else some (q.name.toList, f q)).foldl
        (fun c (key, v) => c.set key v) c =
      { c with standard := fun q => if q ∈ qs ∧ (f q).isNull = false then f q else c.standard q } := by
  induction qs generalizing c with
  | nil => simp
  | cons p qs ih =>
    cases null : (f p).isNull with
    | true =>
      rw [List.filterMap_cons_none (by simp [null]), ih]
      congr 1
      funext q
      by_cases same : q = p
      · simp [same, null]
      · simp [same]
    | false =>
      rw [List.filterMap_cons_some (by simp [null]; rfl), List.foldl_cons]
      dsimp only
      rw [set_quantity c (Quantity.of?_name p), ih]
      congr 1
      funext q
      by_cases same : q = p
      · simp [same, null]
      · simp [same]

/-- A context is what its variables describe, but for the date. -/
theorem ofEntries_asVariables {c : Context} (h : c.IsSeparate) :
    ofEntries c.asVariables = { c with date := .null } := by
  have quantities (q : Quantity) :
      (if q ∈ Quantity.all ∧ (c.standard q).isNull = false then c.standard q else .null) =
        c.standard q := by
    split
    · rfl
    · rename_i unset
      have null : (c.standard q).isNull = true := by simpa [Quantity.mem_all] using unset
      exact (Value.isNull_iff.mp null).symm
  rw [asVariables_eq_append h, ofEntries, List.foldl_append,
    foldl_set_own h.free (by simpa [empty] using h.distinct), setQuantities, foldl_set_quantities]
  simp only [empty, quantities, List.nil_append]

/-- **The variables of a context are those of the mapping that describes it**: each under its name, the
last value of each, without the date and without the quantities that are null.  The variables describe
a context with the same variables again. -/
theorem asVariables_ofEntries (entries : List (Text × Value)) :
    ∃ c, ofValue (.mapping entries) = .ok c ∧
      (c.asVariables.map Prod.fst).Nodup ∧ c.asVariables.Perm (variablesOf entries) ∧
      ∃ c', ofValue (.mapping c.asVariables) = .ok c' ∧ c'.asVariables = c.asVariables := by
  have separate := isSeparate_ofEntries entries
  have distinct : ((ofEntries entries).asVariables.map Prod.fst).Nodup :=
    nodup_foldl_putEntry _ separate.distinct
  have distinct' : ((variablesOf entries).map Prod.fst).Nodup :=
    (nodup_entriesOf _).sublist (List.filter_sublist.map _)
  refine ⟨_, rfl, distinct, perm_of_lookup distinct distinct' (lookup_asVariables_ofEntries entries),
    _, rfl, ?_⟩
  rw [ofEntries_asVariables separate]
  rfl

/-- The key and the name of a quantity are one variable, and a null that is not a quantity stays. -/
example : variablesOf [("valor".toList, .int 1), ("Zona".toList, .null), ("Valor".toList, .null),
    ("fecha".toList, .int 1)] = [("Zona".toList, .null)] := rfl

end Context

end Haulage
