/-
# How long a formula grows through the year

Validation tries a formula out on a Tuesday in June.  What a formula is spelled out as depends on the
day in two ways only: in the facts of the calendar that it asks for, and in the figures of roundings
and tiered rates where those are asked of the calendar themselves.  Where the figures are literal, a
day counts by the number of digits of its facts, and of these only that of the month changes in the
year: it has one digit until September, as in June, and two from October on.

So `expand_of_accepted` is what acceptance says about the other days.  From January to September the
formula stays within the limit.  In the last quarter it stays within it on every day or on none: each
month that is asked for is one character longer then, and tiered rates repeat it once per tier.
-/
import Haulage.Proofs.Shorthand.Lockstep
import Haulage.Validation.Limits

namespace Haulage

open Twin (Content left right)

/-! ## 1. The facts of a day -/

/-- The facts of the calendar are those of the date. -/
structure Surroundings.Tells (w : Surroundings) (d : Date) : Prop where
  weekday : w.context.weekday w.clock = .ok d.weekday
  month : w.context.month w.clock = .ok d.month
  quarter : w.context.quarter w.clock = .ok d.quarter
  weekend : w.context.weekend w.clock = .ok (if d.isWeekend then 1 else 0 : Nat)

/-- Where nothing is set the clock tells the facts. -/
theorem tells_clock (settings : Settings) (clock : Moment) :
    Surroundings.Tells ⟨settings, .empty, clock⟩ clock.date := by
  refine ⟨rfl, rfl, rfl, ?_⟩
  change Except.ok (if clock.date.isWeekend then 1 else 0 : Int) = _
  split <;> rfl

/-- A trial is made with the facts of its day. -/
theorem tells_sample (settings : Settings) :
    (Sample.surroundings settings).Tells Sample.date := by
  have weekday : Sample.date.weekday = 2 := by decide
  have weekend : Sample.date.isWeekend = false := by decide
  refine ⟨?_, rfl, rfl, ?_⟩
  · rw [weekday]
    rfl
  · rw [weekend]
    rfl

theorem length_digitsOf_of_lt_ten : ∀ n < 10, (digitsOf n).length = 1 := by decide

theorem length_digitsOf_of_ten_le : ∀ n < 13, 10 ≤ n → (digitsOf n).length = 2 := by decide

theorem integerDigitsText_natCast {n : Nat} (small : n < 13) :
    integerDigitsText n = .ok (digitsOf n) := by
  have written : integerText n = digitsOf n := by
    rw [integerText, if_neg (by omega), Int.natAbs_natCast]
  have fits {k : Nat} (two : 2 ≤ k) : ¬Nat.pow 10 k ≤ n := by
    have huge : 10 ^ 2 ≤ 10 ^ k := Nat.pow_le_pow_right (by decide) two
    exact Nat.not_le.mpr (Nat.lt_of_lt_of_le (by omega) huge)
  rw [integerDigitsText, written, Int.natAbs_natCast, if_neg (fits (by decide))]

/-- Naturals below 13 are as wide as each other on either side of ten. -/
theorem asWide_of_lt {n n' : Nat} (small : n < 13) (small' : n' < 13) (side : n < 10 ↔ n' < 10) :
    AsWide (.ok n) (.ok n') := by
  have width : (digitsOf n).length = (digitsOf n').length := by
    by_cases one : n < 10
    · rw [length_digitsOf_of_lt_ten n one, length_digitsOf_of_lt_ten n' (side.mp one)]
    · have one' : ¬n' < 10 := fun one' => one (side.mpr one')
      rw [length_digitsOf_of_ten_le n small (by omega),
        length_digitsOf_of_ten_le n' small' (by omega)]
  have first : left ((digitsOf n).zip (digitsOf n')) = digitsOf n :=
    List.map_fst_zip width.le
  have second : right ((digitsOf n).zip (digitsOf n')) = digitsOf n' :=
    List.map_snd_zip width.ge
  refine ⟨n, n', (digitsOf n).zip (digitsOf n'), rfl, rfl, .of_digits ?_ ?_ ?_, ?_, ?_⟩
  · intro empty
    rw [empty] at first
    exact digitsOf_ne_nil n first.symm
  · rw [first]
    exact .digitsOf n
  · rw [second]
    exact .digitsOf n'
  · rw [first, integerDigitsText_natCast small]
  · rw [second, integerDigitsText_natCast small']

/-- **Two days are in step** if their months have as many digits. -/
theorem inStep_of_tells {w w' : Surroundings} {d d' : Date} (settings : w'.settings = w.settings)
    (tells : w.Tells d) (tells' : w'.Tells d') (side : d.month < 10 ↔ d'.month < 10) :
    w.InStep w' := by
  have narrow {n n' : Nat} (small : n < 10) (small' : n' < 10) : AsWide (.ok n) (.ok n') :=
    asWide_of_lt (by omega) (by omega) (by simp [small, small'])
  refine ⟨settings, ?_, ?_, ?_, ?_⟩
  · rw [tells.weekday, tells'.weekday]
    exact narrow (by have := d.weekday_lt; omega) (by have := d'.weekday_lt; omega)
  · rw [tells.month, tells'.month]
    exact asWide_of_lt (Nat.lt_succ_of_le d.month_le) (Nat.lt_succ_of_le d'.month_le) side
  · rw [tells.quarter, tells'.quarter]
    exact narrow (by have := d.quarter_bounds; omega) (by have := d'.quarter_bounds; omega)
  · rw [tells.weekend, tells'.weekend]
    exact narrow (by split <;> decide) (by split <;> decide)

/-! ## 2. What acceptance says of other days -/

/-- What is accepted is spelled out in the trial. -/
theorem exists_of_accepted {settings : Settings} {s : Text}
    (accepted : excess? settings (.text s) = .ok none) :
    ∃ v, expand (Sample.surroundings settings) none (.text s) = .ok v := by
  have tried : excessiveExpansion? settings s = .ok none := by
    unfold excess? at accepted
    simp only [Value.length, bind, Except.bind] at accepted
    split at accepted
    · cases accepted
    · split at accepted
      · cases accepted
      · exact accepted
  unfold excessiveExpansion? at tried
  split at tried
  · rename_i v run
    exact ⟨v, run⟩
  · cases tried
  · cases tried

/-- **What acceptance says of other days.**  A formula with literal figures that is accepted stays
within the limit on every day until September.  From October on it stays within it on every day, or
on none, with one length that is too long. -/
theorem expand_of_accepted {settings : Settings} {s : Text} (figures : FiguresLiteral s)
    (accepted : excess? settings (.text s) = .ok none) :
    (∀ clock : Moment, clock.date.month < 10 →
      ∃ out, expand ⟨settings, .empty, clock⟩ none (.text s) = .ok (.text out)) ∧
    ((∀ clock : Moment, 10 ≤ clock.date.month →
      ∃ out, expand ⟨settings, .empty, clock⟩ none (.text s) = .ok (.text out)) ∨
      ∃ f, Overgrown settings f ∧ ∀ clock : Moment, 10 ≤ clock.date.month →
        expand ⟨settings, .empty, clock⟩ none (.text s) = .error f) := by
  constructor
  · intro clock early
    have step : (Sample.surroundings settings).InStep ⟨settings, .empty, clock⟩ :=
      inStep_of_tells rfl (tells_sample settings) (tells_clock settings clock)
        (iff_of_true (by decide) early)
    obtain ⟨v, run⟩ := exists_of_accepted accepted
    rcases expand_inStep step none figures with ⟨-, out, -, run'⟩ | ⟨f, -, fault, -⟩
    · exact ⟨out, run'⟩
    · cases run.symm.trans fault
  · have step {clock clock' : Moment} (late : 10 ≤ clock.date.month) (late' : 10 ≤ clock'.date.month) :
        Surroundings.InStep ⟨settings, .empty, clock⟩ ⟨settings, .empty, clock'⟩ :=
      inStep_of_tells rfl (tells_clock settings clock) (tells_clock settings clock')
        (iff_of_false (by omega) (by omega))
    by_cases grown : ∃ clock : Moment, 10 ≤ clock.date.month ∧
        ∃ f, expand ⟨settings, .empty, clock⟩ none (.text s) = .error f
    · obtain ⟨clock, late, f, fault⟩ := grown
      have everywhere {clock' : Moment} (late' : 10 ≤ clock'.date.month) : Overgrown settings f ∧
          expand ⟨settings, .empty, clock'⟩ none (.text s) = .error f := by
        rcases expand_inStep (step late late') none figures with
          ⟨out, -, run, -⟩ | ⟨f', long, fault', there⟩
        · cases fault.symm.trans run
        · obtain rfl := Except.error.inj (fault.symm.trans fault')
          exact ⟨long, there⟩
      exact .inr ⟨f, (everywhere late).1, fun _ late' => (everywhere late').2⟩
    · left
      intro clock late
      rcases expand_inStep (step late late) none figures with ⟨out, -, run, -⟩ | ⟨f, -, fault, -⟩
      · exact ⟨out, run⟩
      · exact absurd ⟨clock, late, f, fault⟩ grown

/-- For instance a month that is accepted in June at a limit of one character: it is too long on
every day of the last quarter. -/
theorem expand_of_accepted_month :
    let settings : Settings := { Settings.standard with maxExpandedLength := 1 }
    excess? settings (.text "MES()".toList) = .ok none ∧
      (∀ clock : Moment, clock.date.month < 10 →
        ∃ out, expand ⟨settings, .empty, clock⟩ none (.text "MES()".toList) = .ok (.text out)) ∧
      ∀ clock : Moment, 10 ≤ clock.date.month →
        expand ⟨settings, .empty, clock⟩ none (.text "MES()".toList) =
          .error (.formula (.expansionTooLong 2 1)) := by
  intro settings
  have accepted : excess? settings (.text "MES()".toList) = .ok none := by decide +kernel
  let december : Moment := .ofDate ⟨2024, 12, 3, by decide, by decide, by decide, by decide,
    by decide, by decide⟩
  have run : expand ⟨settings, .empty, december⟩ none (.text "MES()".toList) =
      .error (.formula (.expansionTooLong 2 1)) := by
    have long : expandWithin ⟨settings, .empty, december⟩ 10 "MES()".toList =
        .error (.formula (.expansionTooLong 2 1)) := by decide +kernel
    exact (expand_text (by decide)).trans (congrArg (Except.map Value.text) long)
  obtain ⟨early, late⟩ := @expand_of_accepted settings "MES()".toList (by decide) accepted
  refine ⟨accepted, early, fun clock last => ?_⟩
  rcases late with short | ⟨f, -, long⟩
  · obtain ⟨out, run'⟩ := short december (by decide)
    cases run.symm.trans run'
  · rw [long clock last, ← long december (by decide), run]

/-- Where a figure is asked of the calendar itself, the month counts by its value: 6 places are written
in fewer characters than 9, and what is accepted grows too long before October. -/
example :
    let settings : Settings := { Settings.standard with maxExpandedLength := 35 }
    let september : Moment := .ofDate ⟨2024, 9, 3, by decide, by decide, by decide, by decide,
      by decide, by decide⟩
    excess? settings (.text "REDONDEAR(Peso;MES())".toList) = .ok none ∧
      expandWithin ⟨settings, .empty, september⟩ 10 "REDONDEAR(Peso;MES())".toList =
        .error (.formula (.expansionTooLong 39 35)) := by decide +kernel

end Haulage
