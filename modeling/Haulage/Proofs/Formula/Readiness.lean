/-
# What cannot be made ready, and what stays as it is

Making a value ready fails in two cases only (`Value.FailsWith`).  A signaling decimal has no float,
and an integer with more digits than are written, beyond the floats or anywhere in a list or a mapping,
has no text.  A mapping is made ready, under the names that it has, exactly if none of its values is
one of these, and otherwise the first of them is what is reported (`normalize_outcome`).

What was made ready stays as it is (`normalize_idempotent`).  A finite number does, and a text does if
it is not read as a finite number.  A text that was supplied is not, or it would have become that
number, so what is left are the texts that values are written with.  Infinities, integers beyond the
floats and decimal values are read as the float that they did not become, which is not finite; what
begins with the word for no number is no number; and a list or a mapping begins with a bracket, which
has no place in a number.
-/
import Haulage.Proofs.Calendar.Instant
import Haulage.Proofs.Formula.Datum
import Haulage.Proofs.Number.Decimal
import Haulage.Proofs.Number.Reading
import Haulage.Proofs.Value.Display

namespace Haulage

/-! ## 1. The values that cannot be made ready -/

/-- The value cannot be made ready, and this is the fault that is reported. -/
def Value.FailsWith : Value → ValueFault → Prop
  | .decimal (.notANumber _ true _), f => f = .signalingDecimal
  | v, f => v.HoldsLong ∧ f = .tooManyDigitsToWrite

theorem FailsIf.error_iff {α : Type} {p : Prop} {r : Except ValueFault α} (h : FailsIf p r)
    {f : ValueFault} : r = .error f ↔ p ∧ f = .tooManyDigitsToWrite := by
  cases h with
  | ok a short => simp [short]
  | error long => simp [long, eq_comm]

/-- An integer with more digits than are written is beyond the floats. -/
theorem ofInt?_eq_none_of_long {n : Int} (long : Nat.pow 10 ValueFault.mostDigits ≤ n.natAbs) :
    Exact.ofInt? n = none := by
  have beyond : floatLimit ≤ Nat.pow 10 ValueFault.mostDigits := by decide +kernel
  exact ofInt?_eq_none_iff.mpr (beyond.trans long)

namespace Datum

/-- **A value cannot be made ready exactly if it is a signaling decimal, or holds an integer that is
too long to be written.** -/
theorem ofValue_eq_error_iff {v : Value} {f : ValueFault} :
    ofValue v = .error f ↔ v.FailsWith f := by
  cases v with
  | null => exact ((Value.shown_failsIf .null).map text).error_iff
  | list | mapping => exact ((Value.shown_failsIf _).map text).error_iff
  | bool | float | moment | date => exact iff_of_false nofun (by rintro ⟨⟨⟩, -⟩)
  | text s =>
    refine iff_of_false ?_ (by rintro ⟨⟨⟩, -⟩)
    rw [ofValue]
    split <;> nofun
  | int n =>
    rw [ofValue]
    cases near : Exact.ofInt? n with
    | none => exact ((Value.integerDigitsText_failsIf n).map text).error_iff
    | some x =>
      refine iff_of_false nofun ?_
      rintro ⟨⟨long⟩, -⟩
      rw [ofInt?_eq_none_of_long long] at near
      cases near
  | decimal d =>
    match d with
    | .finite .. | .infinite _ | .notANumber _ false _ =>
      exact iff_of_false nofun (by rintro ⟨⟨⟩, -⟩)
    | .notANumber negative true payload =>
      change Except.error ValueFault.signalingDecimal = .error f ↔ f = .signalingDecimal
      rw [Except.error.injEq, eq_comm]

end Datum

/-- A mapping is made ready as a whole, or the first of its values that cannot be made ready is
reported. -/
theorem normalizeEntries_outcome (entries : List (Text × Value)) :
    ((∀ entry ∈ entries, ∀ f, ¬ entry.2.FailsWith f) ∧
      ∃ data, normalizeEntries entries = .ok data ∧
        data.map Prod.fst = entries.map Prod.fst ∧ ∀ entry ∈ data, entry.2.isFinite = true) ∨
    ∃ front n v behind f, entries = front ++ (n, v) :: behind ∧
      (∀ entry ∈ front, ∀ g, ¬ entry.2.FailsWith g) ∧ v.FailsWith f ∧
      normalizeEntries entries = .error f := by
  induction entries with
  | nil => exact .inl ⟨List.forall_mem_nil _, [], rfl, rfl, List.forall_mem_nil _⟩
  | cons entry entries ih =>
    obtain ⟨n, v⟩ := entry
    rw [normalizeEntries_cons]
    cases made : Datum.ofValue v with
    | error f =>
      exact .inr ⟨[], n, v, entries, f, rfl, List.forall_mem_nil _,
        Datum.ofValue_eq_error_iff.mp made, rfl⟩
    | ok d =>
      have fine : ∀ f, ¬ v.FailsWith f := by
        intro f fails
        rw [Datum.ofValue_eq_error_iff.mpr fails] at made
        cases made
      rcases ih with ⟨others, data, rest, names, finite⟩ |
        ⟨front, m, w, behind, f, rfl, before, fails, rest⟩
      · refine .inl ⟨List.forall_mem_cons.mpr ⟨fine, others⟩, (n, d) :: data, ?_, by simp [names],
          List.forall_mem_cons.mpr ⟨Datum.isFinite_of_ofValue made, finite⟩⟩
        rw [rest]
        rfl
      · refine .inr ⟨(n, v) :: front, m, w, behind, f, rfl, List.forall_mem_cons.mpr ⟨fine, before⟩,
          fails, ?_⟩
        rw [rest]
        rfl

/-- **A mapping is made ready, with the names it has, exactly if none of its values is a signaling
decimal or holds an integer that is too long to be written; the first such value is reported.**  No
moment is out of reach: its milliseconds are always those that were computed. -/
theorem normalize_outcome (entries : List (Text × Value)) :
    (((∀ entry ∈ entries, ∀ f, ¬ entry.2.FailsWith f) ∧
      ∃ data, normalize (.mapping entries) = .ok data ∧
        data.map Prod.fst = entries.map Prod.fst ∧ ∀ entry ∈ data, entry.2.isFinite = true) ∨
    ∃ front n v behind f, entries = front ++ (n, v) :: behind ∧
      (∀ entry ∈ front, ∀ g, ¬ entry.2.FailsWith g) ∧ v.FailsWith f ∧
      normalize (.mapping entries) = .error f) ∧
    ∀ m : Moment, ∃ n, m.millis? = some n ∧ m.epochMillis = Float.ofInt n := by
  rw [normalize_mapping]
  exact ⟨normalizeEntries_outcome entries, Moment.exists_millis⟩

example : normalize (.mapping [(['x'], .decimal (.notANumber false true []))]) =
    .error .signalingDecimal := rfl

/-! ## 2. Texts that stay texts -/

/-- The text is not read as a finite number. -/
def StaysText (s : Text) : Prop := ∀ x, readFloat? s.strip = some x → x.isFinite = false

theorem StaysText.of_not_finite {s : Text} {x : Float} (read : readFloat? s.strip = some x)
    (infinite : x.isFinite = false) : StaysText s := by
  intro y read'
  rw [read] at read'
  cases read'
  exact infinite

theorem StaysText.of_unread {s : Text} (unread : readFloat? s.strip = none) : StaysText s := by
  intro x read
  rw [unread] at read
  cases read

/-- What has no place in a number keeps a text from being read as one. -/
theorem StaysText.of_foreign {s : Text} {c : Char} (foreign : IsForeign c) (mem : c ∈ s) :
    StaysText s := by
  intro x read
  exact absurd (mem_strip foreign.blank mem) (not_mem_of_readFloat? foreign read)

theorem isFinite_of_readUnsigned?_nan {rest : Text} {x : Float}
    (read : readUnsigned? ("NaN".toList ++ rest) = some x) : x.isFinite = false := by
  have unread : readDecimal? ("NaN".toList ++ rest) = none := rfl
  unfold readUnsigned? at read
  split at read
  · cases read
    rfl
  · split at read
    · cases read
      rfl
    · rw [unread] at read
      cases read

/-- What begins with the word for no number, with a minus in front or without, is no number. -/
theorem staysText_notANumber (negative : Bool) (payload : Text) :
    StaysText (Decimal.notANumber negative false payload).write := by
  intro x read
  have some : Decimal.signText negative ++ "NaN".toList ≠ [] := by cases negative <;> decide
  have written : ∀ c ∈ Decimal.signText negative ++ "NaN".toList,
      isBlank c = false ∧ surroundsNumber c = false := by
    cases negative <;> decide
  obtain ⟨rest, strip⟩ := exists_trim_append _ some (fun c mem => (written c mem).1) payload
  obtain ⟨rest', trim⟩ := exists_trim_append _ some (fun c mem => (written c mem).2) rest
  have sign : splitSign (trimNumber (Decimal.notANumber negative false payload).write.strip) =
      (negative, "NaN".toList ++ rest') := by
    rw [Text.strip, Text.stripLeft, Text.stripRight, Decimal.write, if_neg Bool.false_ne_true,
      strip, trimNumber, trim]
    cases negative <;> rfl
  rw [readFloat?, sign] at read
  obtain ⟨y, unsigned, rfl⟩ := Option.map_eq_some_iff.mp read
  have infinite := isFinite_of_readUnsigned?_nan unsigned
  cases negative with
  | true => exact (isFinite_neg y).trans infinite
  | false => exact infinite

theorem staysText_nan : StaysText "nan".toList :=
  .of_not_finite (x := 0.0 / 0.0) rfl rfl

theorem staysText_inf : StaysText "inf".toList :=
  .of_not_finite (x := 1.0 / 0.0) rfl rfl

theorem staysText_minus_inf : StaysText ('-' :: "inf".toList) :=
  .of_not_finite (x := -(1.0 / 0.0)) rfl rfl

/-- The text of a float that is not finite is a word. -/
theorem staysText_floatText {x : Float} (infinite : x.isFinite = false) :
    StaysText (floatText x) := by
  unfold floatText
  split
  · exact staysText_nan
  · rename_i number
    rw [if_pos ((isNaN_or_isInf infinite).resolve_left number)]
    dsimp only
    split
    · exact staysText_minus_inf
    · exact staysText_inf

/-- The text of a decimal value that is a number has no blanks. -/
theorem Decimal.strip_write {d : Decimal} (number : ∀ s q p, d ≠ .notANumber s q p) :
    d.write.strip = d.write := by
  refine strip_eq_self ?_
  match d with
  | .notANumber s q p => exact absurd rfl (number s q p)
  | .infinite negative => cases negative <;> decide
  | .finite negative size =>
    refine List.forall_mem_append.mpr ⟨by cases negative <;> decide, ?_⟩
    exact (spelled_write size).1.isBlank_eq_false

/-- A decimal value is read as the float that it did not become. -/
theorem staysText_write {d : Decimal} {x : Float} (near : decimalToFloat d = .ok x)
    (infinite : x.isFinite = false) : StaysText d.write := by
  match d with
  | .notANumber negative true payload => cases near
  | .notANumber negative false payload => exact staysText_notANumber negative payload
  | .infinite _ | .finite .. =>
    cases near
    refine .of_not_finite ?_ infinite
    rw [Decimal.strip_write fun _ _ _ => Decimal.noConfusion,
      Decimal.readFloat?_write fun _ _ _ => Decimal.noConfusion]
    rfl

/-- An integer is written as the decimal value that it is. -/
theorem write_ofInt (n : Int) : (Decimal.finite (n < 0) ⟨n.natAbs, 0⟩).write = integerText n := by
  have digits : decimalNotation.write ⟨n.natAbs, 0⟩ = digitsOf n.natAbs := by
    have some := digitsOf_ne_nil n.natAbs
    have positional : -6 < ((digitsOf n.natAbs).length : Int) := by omega
    simp [NumberNotation.write, NumberNotation.pointed, decimalNotation, some, positional]
  rw [Decimal.write, digits, integerText, Decimal.signText]
  simp only [decide_eq_true_eq]
  split <;> rfl

/-- An integer beyond the floats is read as an infinity. -/
theorem staysText_integerText {n : Int} (beyond : Exact.ofInt? n = none) :
    StaysText (integerText n) := by
  have infinite := isFinite_toFloat_of_le (ofInt?_eq_none_iff.mp beyond)
  rw [← write_ofInt]
  refine staysText_write rfl ?_
  split
  · rwa [isFinite_neg]
  · exact infinite

theorem staysText_of_integerDigitsText {n : Int} {s : Text} (beyond : Exact.ofInt? n = none)
    (written : integerDigitsText n = .ok s) : StaysText s := by
  have outcome := Value.integerDigitsText_cases n
  rw [written] at outcome
  rcases outcome with ⟨-, fails⟩ | ⟨-, digits⟩
  · cases fails
  · cases digits
    exact staysText_integerText beyond

/-- A list or a mapping is shown between brackets, which have no place in a number. -/
theorem ensures_staysText_bracketed {α : Type} {r : Except ValueFault α} {open' : Char}
    (foreign : IsForeign open') (f : α → Text) :
    Ensures (fun _ => True) StaysText (r.map fun parts => open' :: f parts) := by
  cases r with
  | error fault => trivial
  | ok parts => exact .of_foreign foreign (.head _)

theorem ensures_staysText_shown_list (items : List Value) :
    Ensures (fun _ => True) StaysText (Value.list items).shown := by
  rw [Value.shown_list]
  exact ensures_staysText_bracketed ⟨by decide, by decide, by decide, by decide, by decide⟩ _

theorem ensures_staysText_shown_mapping (entries : List (Text × Value)) :
    Ensures (fun _ => True) StaysText (Value.mapping entries).shown := by
  rw [Value.shown_mapping]
  exact ensures_staysText_bracketed ⟨by decide, by decide, by decide, by decide, by decide⟩ _

theorem staysText_none : StaysText "None".toList := .of_unread rfl

/-! ## 3. Made ready twice -/

namespace Datum

/-- The datum is made ready as itself. -/
def IsSettled (d : Datum) : Prop := ofValue d.toValue = .ok d

theorem isSettled_number {x : Float} (finite : x.isFinite = true) : (number x).IsSettled := by
  rw [IsSettled, toValue, ofValue]
  unfold ofFloat
  rw [if_pos finite]

theorem isSettled_text {s : Text} (stays : StaysText s) : (text s).IsSettled := by
  rw [IsSettled, toValue, ofValue]
  split
  · rename_i x read
    unfold ofFloat
    rw [if_neg (by simp [stays x read])]
  · rfl

/-- A float becomes what stays as it is, if the text that it would be otherwise does. -/
theorem isSettled_ofFloat {x : Float} {s : Text} (stays : x.isFinite = false → StaysText s) :
    (ofFloat x s).IsSettled := by
  unfold ofFloat
  split
  · rename_i finite
    exact isSettled_number finite
  · rename_i infinite
    exact isSettled_text (stays (Bool.eq_false_of_not_eq_true infinite))

/-- **A value becomes what stays as it is.** -/
theorem ensures_isSettled (v : Value) : Ensures (fun _ => True) IsSettled (ofValue v) := by
  cases v with
  | text s =>
    rw [ofValue]
    cases read : readFloat? s.strip with
    | none => exact isSettled_text (.of_unread read)
    | some x => exact isSettled_ofFloat (.of_not_finite read)
  | int n =>
    rw [ofValue]
    cases near : Exact.ofInt? n with
    | some x => exact isSettled_number (isFinite_of_ofInt? near)
    | none =>
      dsimp only
      cases written : integerDigitsText n with
      | error f => trivial
      | ok s => exact isSettled_text (staysText_of_integerDigitsText near written)
  | decimal d =>
    rw [ofValue]
    cases near : decimalToFloat d with
    | error f => trivial
    | ok x => exact isSettled_ofFloat (staysText_write near)
  | float x => exact isSettled_ofFloat staysText_floatText
  | moment m => exact isSettled_number m.isFinite_epochMillis
  | date d => exact isSettled_number (Moment.ofDate d).isFinite_epochMillis
  | bool b => exact isSettled_number (by cases b <;> rfl)
  | null => exact isSettled_text staysText_none
  | list items => exact (ensures_staysText_shown_list items).map fun _ => isSettled_text
  | mapping entries => exact (ensures_staysText_shown_mapping entries).map fun _ => isSettled_text

end Datum

/-- The variables of a mapping become what stays as it is. -/
theorem ensures_isSettled_normalize (inputs : Value) :
    Ensures (fun _ => True) (fun data => ∀ entry ∈ data, entry.2.IsSettled) (normalize inputs) := by
  have entries : Ensures (fun _ => True) (fun _ => True) inputs.entriesOrNone := by
    cases inputs.entriesOrNone <;> trivial
  refine entries.bind ?_
  intro entries _
  refine .mapM ?_
  intro entry _
  exact (Datum.ensures_isSettled entry.2).map fun _ settled => settled

theorem normalizeEntries_of_isSettled {data : List (Text × Datum)}
    (settled : ∀ entry ∈ data, entry.2.IsSettled) :
    normalizeEntries (data.map fun (n, d) => (n, d.toValue)) = .ok data := by
  induction data with
  | nil => rfl
  | cons entry data ih =>
    obtain ⟨first, others⟩ := List.forall_mem_cons.mp settled
    rw [List.map_cons, normalizeEntries_cons, first, ih others]
    rfl

/-- **What was made ready is finite or a text, and making it ready again changes nothing**, of one
value and of all variables. -/
theorem normalize_idempotent :
    (∀ v d, Datum.ofValue v = .ok d → d.isFinite = true ∧ Datum.ofValue d.toValue = .ok d) ∧
    ∀ inputs data, normalize inputs = .ok data →
      normalize (.mapping (data.map fun (n, d) => (n, d.toValue))) = .ok data := by
  constructor
  · intro v d made
    have settled := Datum.ensures_isSettled v
    rw [made] at settled
    exact ⟨Datum.isFinite_of_ofValue made, settled⟩
  · intro inputs data made
    have settled := ensures_isSettled_normalize inputs
    rw [made] at settled
    rw [normalize_mapping]
    exact normalizeEntries_of_isSettled settled

/-- An infinite float becomes a word, which stays one, and so does null. -/
theorem normalize_idempotent_of_infinite :
    Datum.ofValue (.text "None".toList) = .ok (.text "None".toList) ∧
      normalize (.mapping [(['x'], .text "inf".toList), (['y'], .float 1)]) =
        .ok [(['x'], .text "inf".toList), (['y'], .number 1)] :=
  ⟨(normalize_idempotent.1 .null (.text "None".toList) rfl).2,
    normalize_idempotent.2 (.mapping [(['x'], .float (1.0 / 0.0)), (['y'], .bool true)])
      [(['x'], .text "inf".toList), (['y'], .number 1)] rfl⟩

end Haulage
