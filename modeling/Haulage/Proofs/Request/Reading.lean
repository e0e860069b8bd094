/-
# What requests are read as

A reader of a request succeeds only if all its fields are there, each of a kind that its own reader
takes.  The lemmas of this module turn that around: from a request that was read they get back the
values that its fields were read from (`exists_read_route`), and what the readers have seen to:
numbers are finite, formulas are no longer than the settings allow, and extras are mappings of a
certain shape.
-/
import Haulage.Request.Endpoint

namespace Haulage

/-! ## 1. Fields -/

section Fields

variable {α β : Type}

theorem mapError_eq_ok_iff {ε ε' : Type} {f : ε → ε'} {x : Except ε α} {a : α} :
    x.mapError f = .ok a ↔ x = .ok a := by
  cases x with
  | error e =>
    constructor
    · intro h
      cases h
    · intro h
      cases h
  | ok b =>
    change Except.ok b = .ok a ↔ _
    rw [Except.ok.injEq, Except.ok.injEq]

theorem map_eq_ok_iff {ε : Type} {f : α → β} {x : Except ε α} {b : β} :
    x.map f = .ok b ↔ ∃ a, x = .ok a ∧ f a = b := by
  cases x <;> simp [Except.map]

namespace Checked

theorem and_eq_ok_iff {a : Checked α} {b : Checked β} {x : α} {y : β} :
    a.and b = .ok (x, y) ↔ a = .ok x ∧ b = .ok y := by
  cases a <;> cases b <;> simp [Checked.and]

/-- Where a field's value comes from: an entry that is read, or what a missing one comes to. -/
def Provides (key : String) (absent : Except Rejection α) (read : Reader α)
    (entries : List (Text × Value)) (a : α) : Prop :=
  (∃ v, entries.lookup key.toList = some v ∧ read v = .ok a) ∨
    entries.lookup key.toList = none ∧ absent = .ok a

theorem field_eq_ok_iff {key : String} {absent : Except Rejection α} {read : Reader α}
    {entries : List (Text × Value)} {a : α} :
    Checked.field key absent read entries = .ok a ↔ Provides key absent read entries a := by
  rw [Checked.field, mapError_eq_ok_iff, Provides]
  cases entries.lookup key.toList <;> simp

/-- The value of a field that must be there stands in an entry. -/
theorem Provides.exists_entry {key : String} {r : Rejection} {read : Reader α}
    {entries : List (Text × Value)} {a : α} (h : Provides key (.error r) read entries a) :
    ∃ v, entries.lookup key.toList = some v ∧ read v = .ok a :=
  h.resolve_right fun missing => nomatch missing.2

end Checked

theorem Reader.object_eq_ok_iff {fields : List (Text × Value) → Checked α} {v : Value} {a : α} :
    Reader.object fields v = .ok a ↔ ∃ entries, v = .mapping entries ∧ fields entries = .ok a := by
  cases v <;> simp [Reader.object, mapError_eq_ok_iff]

theorem Reader.checked_eq_ok_iff {read : Reader α} {check : α → Except Rejection α} {v : Value}
    {a : α} : read.checked check v = .ok a ↔ ∃ b, read v = .ok b ∧ check b = .ok a := by
  rw [Reader.checked]
  cases read v <;> simp [bind, Except.bind]

theorem Reader.of_notNull {read : Reader α} {v : Value} {a : α} (h : read.notNull v = .ok a) :
    read v = .ok a := by
  cases v <;> first | exact h | cases h

/-- Whatever is in a list that was read was read from one of its items. -/
theorem Reader.exists_of_items {read : Reader α} {index : Nat} {vs : List Value} {as : List α}
    (h : Reader.items read index vs = .ok as) : ∀ a ∈ as, ∃ v ∈ vs, read v = .ok a := by
  induction vs generalizing index as with
  | nil =>
    cases h
    exact List.forall_mem_nil _
  | cons v vs ih =>
    rw [Reader.items] at h
    split at h
    · rename_i x xs first rest
      cases h
      refine List.forall_mem_cons.mpr ⟨⟨v, List.mem_cons_self, first⟩, fun a mem => ?_⟩
      obtain ⟨v', mem', read⟩ := ih rest a mem
      exact ⟨v', List.mem_cons_of_mem _ mem', read⟩
    all_goals cases h

theorem Reader.exists_of_list {refuse : String → Rejection} {read : Reader α} {v : Value}
    {as : List α} (h : Reader.list refuse read v = .ok as) : ∀ a ∈ as, ∃ v, read v = .ok a := by
  cases v with
  | list vs =>
    intro a mem
    obtain ⟨v, -, read⟩ := Reader.exists_of_items (mapError_eq_ok_iff.mp h) a mem
    exact ⟨v, read⟩
  | _ => cases h

theorem Endpoint.of_readBody {read : Reader α} {v : Value} {a : α}
    (h : Endpoint.readBody read v = .ok a) : read v = .ok a := by
  cases v <;> first | exact h | cases h

end Fields

/-! ## 2. Kinds of fields -/

theorem withinLength_eq_ok_iff {settings : Settings} {s t : Text} :
    withinLength settings s = .ok t ↔ s = t ∧ ¬settings.maxFormulaLength < s.length := by
  rw [withinLength]
  split <;> simp [*]

/-- A formula that is read is no longer than the settings allow. -/
theorem not_tooLong_of_readFormula {settings : Settings} {allowBlank : Bool} {v : Value} {s : Text}
    (h : readFormula settings allowBlank v = .ok s) : ¬settings.maxFormulaLength < s.length := by
  obtain ⟨t, -, within⟩ := Reader.checked_eq_ok_iff.mp h
  obtain ⟨rfl, short⟩ := withinLength_eq_ok_iff.mp within
  exact short

/-- An extra as it is read. -/
def IsReadExtra (v : Value) : Prop :=
  ∃ (id : Option Text) (name : Text) (amount : Float),
    v = .mapping ((id.map fun s => ("id".toList, Value.text s)).toList ++
      [("name".toList, .text name), ("value".toList, .float amount)])

theorem isReadExtra_of_readExtra {v u : Value} (h : readExtra v = .ok u) : IsReadExtra u := by
  obtain ⟨entries, -, made⟩ := Reader.object_eq_ok_iff.mp (Reader.of_notNull h)
  obtain ⟨⟨id, name, amount⟩, -, rfl⟩ := map_eq_ok_iff.mp made
  exact ⟨id, name, amount, rfl⟩

/-! ## 3. Requests -/

/-- The fields that a request to price a route was read from. -/
structure RouteRequest.ReadFrom (settings : Settings) (entries : List (Text × Value))
    (r : RouteRequest) : Prop where
  base : Checked.Provides "base" (.error missingField) Reader.number entries r.base
  toll : Checked.Provides "toll" (.ok 0) Reader.number entries r.toll
  pallets : Checked.Provides "pallets" (.ok 0) Reader.number entries r.pallets
  formula : Checked.Provides "formula" (withinLength settings []) (readFormula settings true) entries
    r.formula
  method : Checked.Provides "method" (.ok .pallet)
    (Reader.choice (Method.all.map Method.name) fun s => .ofValue (.text s)) entries r.method
  distance : Checked.Provides "distance" (.ok none) Reader.number.nullable entries r.distance
  extras : Checked.Provides "extras" (.ok []) (Reader.list .whole readExtra) entries r.extras
  charged : r.lacksDistance = false

/-- **A route that is read comes from a mapping**, each part of it from a field. -/
theorem exists_read_route {settings : Settings} {body : Value} {r : RouteRequest}
    (h : Endpoint.readBody (RouteRequest.read settings) body = .ok r) :
    ∃ entries, body = .mapping entries ∧ r.ReadFrom settings entries := by
  obtain ⟨r', read, checked⟩ := Reader.checked_eq_ok_iff.mp (Endpoint.of_readBody h)
  obtain ⟨entries, rfl, fields⟩ := Reader.object_eq_ok_iff.mp read
  split at checked
  · cases checked
  rename_i charged
  cases checked
  obtain ⟨⟨base, toll, pallets, formula, method, distance, extras⟩, all, rfl⟩ :=
    map_eq_ok_iff.mp fields
  simp only [Checked.and_eq_ok_iff, Checked.field_eq_ok_iff] at all
  obtain ⟨base, toll, pallets, formula, method, distance, extras⟩ := all
  exact ⟨entries, rfl, base, toll, pallets, formula, method, distance, extras,
    Bool.eq_false_iff.mpr charged⟩

/-- The extras of a route that is read have the shape of one. -/
theorem RouteRequest.ReadFrom.isReadExtra {settings : Settings} {entries : List (Text × Value)}
    {r : RouteRequest} (h : r.ReadFrom settings entries) : ∀ v ∈ r.extras, IsReadExtra v := by
  rcases h.extras with ⟨v, -, read⟩ | ⟨-, none⟩
  · intro u mem
    obtain ⟨v, read⟩ := Reader.exists_of_list read u mem
    exact isReadExtra_of_readExtra read
  · have none : r.extras = [] := (Except.ok.inj none).symm
    rw [none]
    exact List.forall_mem_nil _

/-- The formula of a simulation that is read is no longer than the settings allow. -/
theorem not_tooLong_of_read_simulation {settings : Settings} {body : Value} {r : SimulationRequest}
    (h : Endpoint.readBody (SimulationRequest.read settings) body = .ok r) :
    ¬settings.maxFormulaLength < r.formula.length := by
  obtain ⟨entries, rfl, fields⟩ := Reader.object_eq_ok_iff.mp (Endpoint.of_readBody h)
  obtain ⟨⟨formula, context, date⟩, all, rfl⟩ := map_eq_ok_iff.mp fields
  simp only [Checked.and_eq_ok_iff, Checked.field_eq_ok_iff] at all
  obtain ⟨v, -, read⟩ := all.1.exists_entry
  exact not_tooLong_of_readFormula read

end Haulage
