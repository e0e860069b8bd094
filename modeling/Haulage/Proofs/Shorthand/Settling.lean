/-
# Spelling out comes to an end

A pass takes as much from the load of a formula as it spells out calls (`settles_expandOnce`), so after
at most as many passes as the load a pass spells out nothing.  Such a pass changes nothing, and
neither does any that follows it.

So without a limit of passes and of length every formula is settled after finitely many passes, and
one that was spelled out until nothing was left to spell out stays as it is when it is spelled out
once more (`expand_settles`).
-/
import Haulage.Proofs.Shorthand.Load

namespace Haulage

/-! ## 1. One shorthand -/

/-- The text weighs less than another by as many calls as were spelled out, and is that other text if
none was. -/
structure Settles (factor : Nat) (s : Text) (out : SpelledOut) : Prop where
  load_le : load factor none out.text + out.count ≤ load factor none s
  same : out.count = 0 → out.text = s

/-- A rate is spelled out only if it lists more than an amount. -/
theorem listsMore_of_spellTieredRate {most : Int} {body y : Text}
    (grouped : Grouped (fun _ => True) body)
    (spelled : Shorthand.spellTieredRate most (semicolonArguments body) = some y) :
    listsMore 0 body = true := by
  by_contra one
  have single := grouped_of_not_listsMore grouped (by simpa using one)
  have arguments : semicolonArguments (Text.join ";".toList [body]) = [body.strip] :=
    semicolonArguments_join (List.cons_ne_nil _ _) (List.forall_mem_singleton.mpr single)
  rw [Text.join] at arguments
  simp [arguments, Shorthand.spellTieredRate] at spelled

section Shorthands

variable {factor : Nat} {t : Text}

/-- Calls are spelled out: each is replaced by a content that weighs no more. -/
def SpellsCalls (factor : Nat) (t : Text) (out : SpelledOut) : Prop :=
  ReplacesCalls (Lightens factor) none t out.text out.count

theorem spellsCalls_calls {k : Shorthand} {spell : List Text → Option Text}
    (light : k.SpellsLight factor spell)
    (lists : k = .tieredRate → ∀ body y, Grouped (fun _ => True) body →
      spell (semicolonArguments body) = some y → listsMore 0 body = true) :
    SpellsCalls factor t (Shorthand.spellAll (spellableCalls k.name.toList spell) t) := by
  refine (takes_spellableCalls fun body y grouped spelled => ?_).replaces none t
  obtain ⟨arguments, weight⟩ := @load_arguments factor body grouped
  have content := light _ y arguments spelled
  rw [weight] at content
  exact ⟨content.content, fun tiered => lists tiered body y grouped spelled, content⟩

theorem lightens_integerText (positive : 0 < factor) {k : Shorthand} (other : k ≠ .tieredRate)
    (n : Int) (blanks : Text) : Lightens factor k blanks (integerText n) := by
  refine ⟨fun tiered => absurd tiered other, .integerText n, fun before rest => ?_⟩
  have noLetters : ∀ c ∈ integerText n, c ∉ latinLetters := fun c mem letter => by
    rcases mem_integerText mem with rfl | digit
    · exact absurd letter (by decide)
    · simp [isDigit_of_mem_latinLetters letter] at digit
  have outside : inWord (some ')') = true → inWord (lastOr before (integerText n)) = true :=
    fun inside => absurd inside (by decide)
  rw [load_append_of_no_letters noLetters]
  exact (load_le_of_inWord positive outside rest).trans (Nat.le_add_left _ _)

theorem spellsCalls_fillIn (positive : 0 < factor) {k : Shorthand} (other : k ≠ .tieredRate)
    (fact : Except ValueFault Int) :
    Ensures (fun _ => True) (SpellsCalls factor t) (Shorthand.fillIn k.name fact t) := by
  cases known : fact with
  | error f =>
    unfold Shorthand.fillIn
    dsimp only
    split
    · trivial
    · exact .refl none t
  | ok n =>
    cases written : integerDigitsText n with
    | error f =>
      unfold Shorthand.fillIn
      dsimp only
      split
      · simp [bind, Except.bind, written, Ensures]
      · exact .refl none t
    | ok digits =>
      rw [Shorthand.fillIn_eq rfl written]
      obtain rfl := Shorthand.eq_of_integerDigitsText written
      exact (takes_emptyCalls (.integerText n) (lightens_integerText positive other n)).replaces none t

end Shorthands

/-! ## 2. A pass -/

/-- Some shorthands spelled out one after the other, as a pass does with all of them. -/
def spellOutEach (w : Surroundings) (ks : List Shorthand) (done : SpelledOut) :
    Except ValueFault SpelledOut :=
  ks.foldlM (fun done k => do
    let next ← k.spellOut w done.text
    .ok ⟨next.text, done.count + next.count⟩) done

theorem expandOnce_eq_spellOutEach (w : Surroundings) (t : Text) :
    expandOnce w t = spellOutEach w Shorthand.all ⟨t, 0⟩ := rfl

theorem spellOutEach_cons (w : Surroundings) (k : Shorthand) (ks : List Shorthand)
    (done : SpelledOut) : spellOutEach w (k :: ks) done =
      (k.spellOut w done.text).bind fun next =>
        spellOutEach w ks ⟨next.text, done.count + next.count⟩ := by
  rw [spellOutEach, List.foldlM_cons]
  cases k.spellOut w done.text <;> rfl

/-- As often as a pass may write an amount. -/
def Surroundings.factor (w : Surroundings) : Nat := max 1 w.settings.maxFunctionArguments.toNat

theorem Surroundings.factor_pos (w : Surroundings) : 0 < w.factor :=
  Nat.lt_of_lt_of_le Nat.one_pos (Nat.le_max_left _ _)

/-- **Spelling out one shorthand** replaces calls, and nothing else. -/
theorem spellsCalls_spellOut (w : Surroundings) (k : Shorthand) (t : Text) :
    Ensures (fun _ => True) (SpellsCalls w.factor t) (k.spellOut w t) := by
  have positive := w.factor_pos
  have room : w.settings.maxFunctionArguments ≤ w.factor := by
    unfold Surroundings.factor
    omega
  cases k with
  | conditional => exact spellsCalls_calls (Shorthand.spellsLight_conditional positive) nofun
  | rounding => exact spellsCalls_calls (Shorthand.spellsLight_rounding positive) nofun
  | average => exact spellsCalls_calls (Shorthand.spellsLight_average positive _) nofun
  | weekday => exact spellsCalls_fillIn (k := .weekday) positive (by decide) _
  | month => exact spellsCalls_fillIn (k := .month) positive (by decide) _
  | quarter => exact spellsCalls_fillIn (k := .quarter) positive (by decide) _
  | weekend => exact spellsCalls_fillIn (k := .weekend) positive (by decide) _
  | tieredRate =>
    exact spellsCalls_calls (Shorthand.spellsLight_tieredRate positive room)
      fun _ _ _ => listsMore_of_spellTieredRate

/-- So it takes from the load. -/
theorem settles_spellOut (w : Surroundings) (k : Shorthand) (t : Text) :
    Ensures (fun _ => True) (Settles w.factor t) (k.spellOut w t) := by
  have spells := spellsCalls_spellOut w k t
  cases run : k.spellOut w t with
  | error f => trivial
  | ok out =>
    rw [run] at spells
    exact ⟨spells.load_le w.factor_pos, fun none => spells.eq_of_zero none⟩

/-- **A pass takes from the load** as much as it spells out calls. -/
theorem settles_expandOnce (w : Surroundings) (t : Text) :
    Ensures (fun _ => True) (Settles w.factor t) (expandOnce w t) := by
  refine Ensures.foldlM (fun k _ => k.mem_all) (fun done k settles _ => ?_)
    ⟨Nat.le_refl _, fun _ => rfl⟩
  refine (settles_spellOut w k done.text).bind fun next step => ?_
  have first := settles.load_le
  have second := step.load_le
  refine ⟨?_, fun none => ?_⟩
  · show load w.factor Option.none next.text + (done.count + next.count) ≤ _
    omega
  · have none : done.count + next.count = 0 := none
    exact (step.same (by omega)).trans (settles.same (by omega))

theorem settles_of_expandOnce {w : Surroundings} {t : Text} {next : SpelledOut}
    (run : expandOnce w t = .ok next) : Settles w.factor t next := by
  have settles := settles_expandOnce w t
  rwa [run] at settles

/-! ## 3. Passes -/

/-- The text after so many passes, however long it grows. -/
def afterPasses (w : Surroundings) : Nat → Text → Except ValueFault Text
  | 0, t => .ok t
  | n + 1, t => do
    let next ← expandOnce w t
    afterPasses w n next.text

/-- Are the facts of the calendar known, and can they be written? -/
structure Surroundings.KnowsCalendar (w : Surroundings) : Prop where
  weekday : ∃ n digits, w.context.weekday w.clock = .ok n ∧ integerDigitsText n = .ok digits
  month : ∃ n digits, w.context.month w.clock = .ok n ∧ integerDigitsText n = .ok digits
  quarter : ∃ n digits, w.context.quarter w.clock = .ok n ∧ integerDigitsText n = .ok digits
  weekend : ∃ n digits, w.context.weekend w.clock = .ok n ∧ integerDigitsText n = .ok digits

/-- A shorthand can be spelled out where the facts of the calendar are known. -/
theorem exists_spellOut {w : Surroundings} (calendar : w.KnowsCalendar) (k : Shorthand) (t : Text) :
    ∃ next, k.spellOut w t = .ok next := by
  have filled {name : String} {fact : Except ValueFault Int}
      (known : ∃ n digits, fact = .ok n ∧ integerDigitsText n = .ok digits) :
      ∃ next, Shorthand.fillIn name fact t = .ok next := by
    obtain ⟨n, digits, fact, written⟩ := known
    exact ⟨_, Shorthand.fillIn_eq fact written t⟩
  cases k with
  | weekday => exact filled calendar.weekday
  | month => exact filled calendar.month
  | quarter => exact filled calendar.quarter
  | weekend => exact filled calendar.weekend
  | _ => exact ⟨_, rfl⟩

/-- **Where the facts of the calendar are known** no pass fails. -/
theorem exists_pass {w : Surroundings} (calendar : w.KnowsCalendar) (t : Text) :
    ∃ next, expandOnce w t = .ok next := by
  rw [expandOnce_eq_spellOutEach]
  generalize (⟨t, 0⟩ : SpelledOut) = done
  induction Shorthand.all generalizing done with
  | nil => exact ⟨done, rfl⟩
  | cons k ks ih =>
    obtain ⟨next, step⟩ := exists_spellOut calendar k done.text
    rw [spellOutEach_cons, step]
    exact ih _

/-- Is there nothing left to spell out in the text? -/
def IsSettled (w : Surroundings) (t : Text) : Prop := expandOnce w t = .ok ⟨t, 0⟩

/-- **After finitely many passes nothing is left**, at most as many as the load. -/
theorem exists_settled {w : Surroundings} (calendar : w.KnowsCalendar) (f : Text) :
    ∃ n ≤ load w.factor none f, ∃ t, afterPasses w n f = .ok t ∧ IsSettled w t := by
  induction size : load w.factor none f using Nat.strong_induction_on generalizing f with
  | _ size ih =>
  subst size
  obtain ⟨next, run⟩ := exists_pass calendar f
  have settles := settles_of_expandOnce run
  by_cases none : next.count = 0
  · have same := settles.same none
    refine ⟨0, Nat.zero_le _, f, rfl, ?_⟩
    rw [IsSettled, run, ← same, ← none]
  · have less := settles.load_le
    obtain ⟨n, bound, t, passes, settled⟩ := ih _ (by omega) next.text rfl
    refine ⟨n + 1, by omega, t, ?_, settled⟩
    rw [afterPasses, run]
    exact passes

/-- A pass that spells out nothing changes nothing. -/
theorem eq_of_expandOnce_zero {w : Surroundings} {t u : Text} (run : expandOnce w t = .ok ⟨u, 0⟩) :
    u = t := (settles_of_expandOnce run).same rfl

/-! ## 4. Spelling out again -/

/-- Is there nothing left to spell out before the last of so many passes? -/
def StopsWithin (w : Surroundings) (passes : Nat) (f : Text) : Prop :=
  ∃ n < passes, ∃ t u, afterPasses w n f = .ok t ∧ expandOnce w t = .ok ⟨u, 0⟩

/-- A text in which nothing is left comes out as it is, unless it is too long. -/
theorem expandWithin_of_settled {w : Surroundings} {t : Text} (settled : IsSettled w t)
    (short : t.length ≤ w.settings.maxExpandedLength) :
    (passes : Nat) → expandWithin w passes t = .ok t
  | 0 => rfl
  | passes + 1 => by
    have run : expandOnce w t = .ok ⟨t, 0⟩ := settled
    rw [expandWithin, run]
    dsimp only
    rw [if_neg (by omega), if_pos rfl]

/-- What comes out before the passes are used up has nothing left, and is not too long. -/
theorem settled_of_expandWithin {w : Surroundings} {passes : Nat} {f out : Text}
    (stops : StopsWithin w passes f) (run : expandWithin w passes f = .ok out) :
    IsSettled w out ∧ out.length ≤ w.settings.maxExpandedLength := by
  induction passes generalizing f with
  | zero =>
    obtain ⟨n, less, -⟩ := stops
    exact absurd less (Nat.not_lt_zero n)
  | succ passes ih =>
    rw [expandWithin] at run
    split at run
    · cases run
    · rename_i next once
      split at run
      · cases run
      · rename_i short
        split at run
        · rename_i none
          obtain rfl := Except.ok.inj run
          have same := (settles_of_expandOnce once).same none
          refine ⟨?_, by omega⟩
          rw [IsSettled, same, once, ← same, ← none]
        · rename_i some
          refine ih ?_ run
          obtain ⟨n, less, t, u, after, zero⟩ := stops
          cases n with
          | zero =>
            obtain rfl := Except.ok.inj after
            obtain rfl := Except.ok.inj (once.symm.trans zero)
            exact absurd rfl some
          | succ n =>
            rw [afterPasses, once] at after
            exact ⟨n, by omega, t, u, after, zero⟩

/-- **Spelling out always comes to an end**, and to a fixpoint: after finitely many passes nothing is
left; a pass that spells out nothing changes nothing; and what comes out when nothing was left, with
passes to spare, comes out again. -/
theorem expand_settles {w : Surroundings} (calendar : w.KnowsCalendar) (f : Text) :
    (∃ n ≤ load w.factor none f, ∃ t, afterPasses w n f = .ok t ∧ IsSettled w t) ∧
      (∀ t u, expandOnce w t = .ok ⟨u, 0⟩ → u = t) ∧
      ∀ asked out, StopsWithin w (passLimit w asked) f → expand w asked (.text f) = .ok (.text out) →
        ∀ asked', expand w asked' (.text out) = .ok (.text out) := by
  refine ⟨exists_settled calendar f, fun t u => eq_of_expandOnce_zero, ?_⟩
  intro asked out stops run asked'
  by_cases empty : out = []
  · rw [empty]
    rfl
  · have nonempty : f ≠ [] := by
      rintro rfl
      cases run
      exact empty rfl
    obtain ⟨settled, short⟩ :=
      settled_of_expandWithin stops ((expand_text_eq_ok_iff nonempty).mp run)
    exact (expand_text_eq_ok_iff empty).mpr (expandWithin_of_settled settled short _)

/-- Nested calls take two passes, and a third that finds nothing. -/
theorem expand_settles_of_nested : Surroundings.bare.KnowsCalendar ∧
    ∃ out : Text, expand .bare none (.text "SI(a;SI(b;MES();2);3)".toList) = .ok (.text out) ∧
      ∀ asked, expand .bare asked (.text out) = .ok (.text out) := by
  let out := "(a ? (b ? 6 : 2) : 3)".toList
  have known {fact : Except ValueFault Int} (n : Int) (digits : Text)
      (h : fact = .ok n ∧ integerDigitsText n = .ok digits) :
      ∃ n digits, fact = .ok n ∧ integerDigitsText n = .ok digits := ⟨n, digits, h⟩
  have calendar : Surroundings.bare.KnowsCalendar :=
    ⟨known 2 ['2'] (by decide +kernel),
      known 6 ['6'] (by decide +kernel),
      known 2 ['2'] (by decide +kernel),
      known 0 ['0'] (by decide +kernel)⟩
  have stops : StopsWithin .bare (passLimit .bare none) "SI(a;SI(b;MES();2);3)".toList :=
    ⟨2, by decide, out, out, by decide +kernel, by decide +kernel⟩
  have run : expandWithin .bare (passLimit .bare none) "SI(a;SI(b;MES();2);3)".toList = .ok out := by
    decide +kernel
  have run : expand .bare none (.text "SI(a;SI(b;MES();2);3)".toList) = .ok (.text out) :=
    (expand_text_eq_ok_iff (by decide)).mpr run
  exact ⟨calendar, out, run, (expand_settles calendar _).2.2 none out stops run⟩

end Haulage
