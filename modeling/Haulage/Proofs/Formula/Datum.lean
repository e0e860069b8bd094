/-
# Values made ready

Where all values of a mapping can be made ready, what becomes of the mapping has the same names in
the same order (`exists_normalizeEntries`, `lookup_normalizeEntries`).  Its numbers are finite
(`isFinite_of_ofValue`): a float that is not becomes a text, so does an integer beyond the floats,
and the milliseconds of a date are the integer part of a float.
-/
import Haulage.Proofs.Formula.Inlining
import Haulage.Proofs.Formula.Outcome
import Haulage.Proofs.Number.Rounding

namespace Haulage

/-! ## 1. One value -/

theorem Moment.isFinite_epochMillis (m : Moment) : m.epochMillis.isFinite = true := by
  unfold epochMillis
  dsimp only
  cases part : Exact.trunc? _ with
  | none => rfl
  | some n => exact isFinite_ofInt_of_trunc? part

namespace Datum

theorem isFinite_ofFloat (x : Float) (s : Text) : (ofFloat x s).isFinite = true := by
  unfold ofFloat
  split
  · assumption
  · rfl

theorem isFinite_of_map_text {d : Datum} {r : Except ValueFault Text} (h : r.map text = .ok d) :
    d.isFinite = true := by
  cases r with
  | error f => cases h
  | ok s =>
    cases h
    rfl

/-- **A value is made ready as a text or a finite number.** -/
theorem isFinite_of_ofValue {v : Value} {d : Datum} (h : ofValue v = .ok d) :
    d.isFinite = true := by
  unfold ofValue at h
  split at h
  · split at h <;> cases h
    · exact isFinite_ofFloat _ _
    · rfl
  · cases h
    exact Moment.isFinite_epochMillis _
  · cases h
    exact Moment.isFinite_epochMillis _
  · rename_i b
    cases h
    cases b <;> rfl
  · split at h
    · rename_i near
      cases h
      exact isFinite_of_ofInt? near
    · exact isFinite_of_map_text h
  · cases h
    exact isFinite_ofFloat _ _
  · rename_i d'
    cases near : decimalToFloat d' with
    | error f => simp [near, Except.map] at h
    | ok x =>
      rw [near] at h
      cases h
      exact isFinite_ofFloat _ _
  · exact isFinite_of_map_text h

end Datum

/-! ## 2. The values of a mapping -/

/-- The variables of a mapping are its entries, also where there are none. -/
theorem normalize_mapping (entries : List (Text × Value)) :
    normalize (.mapping entries) = normalizeEntries entries := by
  cases entries <;> rfl

theorem normalizeEntries_cons (n : Text) (v : Value) (entries : List (Text × Value)) :
    normalizeEntries ((n, v) :: entries) = (do
      let d ← Datum.ofValue v
      let data ← normalizeEntries entries
      .ok ((n, d) :: data)) := by
  rw [normalizeEntries, List.mapM_cons]
  dsimp only
  cases Datum.ofValue v <;> rfl

/-- What is made ready keeps its name. -/
theorem exists_normalizeEntries {P : Text → Datum → Prop} {entries : List (Text × Value)}
    (ready : ∀ entry ∈ entries, ∃ d, Datum.ofValue entry.2 = .ok d ∧ P entry.1 d) :
    ∃ data, normalizeEntries entries = .ok data ∧
      data.map Prod.fst = entries.map Prod.fst ∧ ∀ entry ∈ data, P entry.1 entry.2 := by
  induction entries with
  | nil => exact ⟨[], rfl, rfl, List.forall_mem_nil _⟩
  | cons entry entries ih =>
    obtain ⟨⟨d, made, good⟩, others⟩ := List.forall_mem_cons.mp ready
    obtain ⟨data, rest, same, all⟩ := ih others
    obtain ⟨n, v⟩ := entry
    refine ⟨(n, d) :: data, ?_, by simp [same], List.forall_mem_cons.mpr ⟨good, all⟩⟩
    rw [normalizeEntries_cons, made, rest]
    rfl

/-- What is made ready stands under the name it had. -/
theorem lookup_normalizeEntries {entries : List (Text × Value)} {data : List (Text × Datum)}
    (h : normalizeEntries entries = .ok data) (n : Text) :
    match entries.lookup n with
    | none => data.lookup n = none
    | some v => ∃ d, Datum.ofValue v = .ok d ∧ data.lookup n = some d := by
  induction entries generalizing data with
  | nil =>
    cases h
    rfl
  | cons entry entries ih =>
    obtain ⟨m, v⟩ := entry
    rw [normalizeEntries_cons] at h
    cases ready : Datum.ofValue v with
    | error f => simp [ready, bind, Except.bind] at h
    | ok d =>
      cases rest : normalizeEntries entries with
      | error f => simp [ready, rest, bind, Except.bind] at h
      | ok made =>
        have ih := ih rest
        obtain rfl : (m, d) :: made = data := by simpa [ready, rest, bind, Except.bind] using h
        cases same : n == m with
        | true => simpa [List.lookup, same] using ready
        | false => simpa [List.lookup, same] using ih

end Haulage
