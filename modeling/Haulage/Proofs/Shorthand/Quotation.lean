/-
# What stands in a literal

A user compares texts inside of shorthands, and the literal should not decide how the formula around
it is spelled out.  Shorthands are found and taken apart without a look at literals, though: the
parentheses and the semicolons in them are counted, and the calls in them are spelled out.

What holds is this.  A text is `Harmless` if its parentheses match, no semicolon stands outside them
and nothing is left to spell out in it.  A formula with a harmless text in its literal comes out as
the filling of a template that does not depend on the text (`expand_literal`); only the limit of
length notices how long the text is.  It does not matter what stands around the literal, nor whether
the quotes around it are the quotes of a literal at all.

The proof goes up from the rules: a rule makes the same of arguments whatever is put in their holes,
so a search finds the same calls in every filling, and one shorthand after the other, pass after
pass, fillings of one template come out.  Inside the literal a search stays quiet: a call that is
found there is closed in the text, so it would have been found in the text alone.
-/
import Haulage.Proofs.Shorthand.Template
import Haulage.Proofs.Shorthand.Settling
import Haulage.Proofs.Shorthand.Rounding
import Haulage.Proofs.Shorthand.TieredRate

namespace Haulage

open Template (fill place)

/-! ## 1. Rules -/

/-- Whatever is put in the holes of the arguments, the rule makes the same of them. -/
def SpellsTemplates (spell : List Text → Option Text) : Prop :=
  ∀ args : List Template, ∃ y : Option Template, ∀ s, spell (args.map (fill s)) = y.map (fill s)

namespace Template

/-- What is read without a quote is not read from a literal. -/
theorem exists_reading {α : Type} {read : Text → Option α}
    (plain : ∀ t a, read t = some a → '"' ∉ t) (z : Template) : ∃ r, ∀ s, read (fill s z) = r := by
  by_cases hole : none ∈ z
  · exact ⟨none, fun s => Option.eq_none_iff_forall_ne_some.mpr fun a found =>
      plain _ a found (quote_mem_fill hole s)⟩
  · obtain ⟨t, rfl⟩ := exists_text hole
    exact ⟨read t, fun s => by rw [fill_map_some]⟩

theorem exists_readings {α : Type} {read : Text → Option α}
    (plain : ∀ t a, read t = some a → '"' ∉ t) (zs : List Template) :
    ∃ r, ∀ s, (zs.map (fill s)).mapM read = r := by
  induction zs with
  | nil => exact ⟨some [], fun _ => rfl⟩
  | cons z zs ih =>
    obtain ⟨first, reads⟩ := exists_reading plain z
    obtain ⟨others, more⟩ := ih
    exact ⟨first.bind fun a => others.bind fun as => some (a :: as), fun s => by
      rw [List.map_cons, List.mapM_cons, reads s, more s]; rfl⟩

/-- Templates with a text between neighbours. -/
theorem exists_join (separator : Text) (zs : List Template) :
    ∃ y, ∀ s, Text.join separator (zs.map (fill s)) = fill s y := by
  induction zs with
  | nil => exact ⟨[], fun _ => rfl⟩
  | cons z zs ih =>
    obtain ⟨y, join⟩ := ih
    cases zs with
    | nil => exact ⟨z, fun _ => rfl⟩
    | cons z' zs =>
      refine ⟨z ++ separator.map some ++ y, fun s => ?_⟩
      rw [fill_append, fill_append, fill_map_some, ← join s]
      rfl

end Template

namespace Shorthand

theorem spellsTemplates_conditional : SpellsTemplates spellConditional := by
  intro args
  rcases args with _ | ⟨c, _ | ⟨a, _ | ⟨b, _ | ⟨d, args⟩⟩⟩⟩
  case cons.cons.cons.nil =>
    by_cases empty : (c.isEmpty || a.isEmpty || b.isEmpty) = true
    · exact ⟨none, fun s => by simp [spellConditional, empty]⟩
    · refine ⟨some (('(' :: []).map some ++ (c ++ " ? ".toList.map some ++ a ++
        " : ".toList.map some ++ b ++ [')'].map some)), fun s => ?_⟩
      simp only [List.map_cons, List.map_nil, spellConditional, Template.isEmpty_fill, if_neg empty]
      simp
  all_goals exact ⟨none, fun _ => rfl⟩

theorem spellsTemplates_rounding : SpellsTemplates spellRounding := by
  intro args
  rcases args with _ | ⟨amount, _ | ⟨places, _ | ⟨d, args⟩⟩⟩
  case cons.cons.nil =>
    obtain ⟨read, reads⟩ := Template.exists_reading (fun t n found quote => by
      have digit := isDecimalDigit_of_readPlaces? found '"' quote
      exact absurd digit (by decide)) places
    by_cases empty : amount.isEmpty = true
    · exact ⟨none, fun s => by simp [spellRounding, empty]⟩
    · cases read with
      | none => exact ⟨none, fun s => by simp [spellRounding, empty, reads s]⟩
      | some n =>
        let factor := digitsOf (Nat.pow 10 n)
        refine ⟨some ("(round(".toList.map some ++ amount ++ " * ".toList.map some ++
          factor.map some ++ ") / ".toList.map some ++ factor.map some ++ [')'].map some),
          fun s => ?_⟩
        simp only [List.map_cons, List.map_nil, spellRounding, Template.isEmpty_fill, if_neg empty,
          reads s, Option.map_some, Template.fill_append, Template.fill_map_some]
        rfl
  all_goals exact ⟨none, fun _ => rfl⟩

theorem spellsTemplates_average (most : Int) : SpellsTemplates (spellAverage most) := by
  intro args
  obtain ⟨sum, join⟩ := Template.exists_join " + ".toList args
  have empties (s : Text) : (args.map (fill s)).any List.isEmpty = args.any List.isEmpty := by
    simp [List.any_map, Function.comp_def]
  by_cases unfit : (args.any List.isEmpty || decide (most < args.length)) = true
  · exact ⟨none, fun s => by simp [spellAverage, empties s, unfit]⟩
  · refine ⟨some ("((".toList.map some ++ sum ++ ") / ".toList.map some ++
      (digitsOf args.length).map some ++ [')'].map some), fun s => ?_⟩
    simp only [spellAverage, empties s, List.length_map, join s, if_neg unfit, Option.map_some,
      Template.fill_append, Template.fill_map_some]

theorem exists_choicesOf (amount : Template) (otherwise : Text) (ts : List Tier) :
    ∃ y, ∀ s, choicesOf (fill s amount) otherwise ts = fill s y := by
  induction ts with
  | nil => exact ⟨otherwise.map some, fun s => by rw [Template.fill_map_some, choicesOf]⟩
  | cons t ts ih =>
    obtain ⟨y, chain⟩ := ih
    refine ⟨"((".toList.map some ++ amount ++ (") <= ".toList ++ t.threshold.text ++ " ? ".toList ++
      t.tariff.text ++ " : ".toList).map some ++ y ++ [')'].map some, fun s => ?_⟩
    rw [choicesOf_cons, chain s]
    simp

theorem quote_notMem_of_readTier? {s : Text} {t : Tier} (h : Tier.read? s = some t) : '"' ∉ s :=
  not_mem_of_readTier? isForeign_quote (by decide) (by decide) h

theorem spellsTemplates_tieredRate (most : Int) : SpellsTemplates (spellTieredRate most) := by
  intro args
  cases args with
  | nil => exact ⟨none, fun _ => rfl⟩
  | cons amount tiers =>
    obtain ⟨read, reads⟩ := Template.exists_readings (fun _ _ => quote_notMem_of_readTier?) tiers
    by_cases unfit : (tiers.isEmpty || amount.isEmpty || decide (most < tiers.length)) = true
    · exact ⟨none, fun s => by simp [spellTieredRate, unfit]⟩
    · cases read with
      | none => exact ⟨none, fun s => by simp [spellTieredRate, reads s]⟩
      | some tiers' =>
        cases last : (Tier.ordered tiers').getLast? with
        | none =>
          refine ⟨none, fun s => ?_⟩
          simp [spellTieredRate, reads s, tierChain, last, Except.toOption]
        | some highest =>
          obtain ⟨y, chain⟩ := exists_choicesOf amount highest.tariff.text (Tier.ordered tiers')
          refine ⟨some y, fun s => ?_⟩
          simp only [List.map_cons, spellTieredRate, List.isEmpty_map, Template.isEmpty_fill,
            List.length_map, if_neg unfit, reads s, tierChain, last, chain s]
          rfl

theorem spellsTemplates_fact (digits : Text) : SpellsTemplates (spellFact digits) := by
  intro args
  have same (s : Text) : args.map (fill s) = [[]] ↔ args = [[]] := by
    constructor
    · intro empty
      obtain ⟨z, rfl, nothing⟩ := List.map_eq_singleton_iff.mp empty
      have := Template.isEmpty_fill s z
      rw [nothing] at this
      rw [List.isEmpty_iff.mp this.symm]
    · rintro rfl
      rfl
  by_cases empty : args = [[]]
  · exact ⟨some (digits.map some), fun s => by simp [spellFact, empty]⟩
  · exact ⟨none, fun s => by rw [spellFact, if_neg (mt (same s).mp empty), Option.map_none]⟩

end Shorthand

/-! ## 2. Searches -/

/-- At each place of a template the search finds nothing in any filling, or the same call in all,
and puts fillings of one template there. -/
def FindsTemplates (find : Finder Text) : Prop :=
  ∀ before c z, (∀ s, Grouped (· ≠ ';') s → find before c (fill s z) = none) ∨
    ∃ x r y, z = x ++ some ')' :: r ∧ ∀ s, Grouped (· ≠ ';') s →
      find before c (fill s z) = some ⟨(fill s x).length + 1, fill s y⟩

/-- **Calls are found in every filling or in none.** -/
theorem findsTemplates_calls {name : Text} (sn : ShorthandName name)
    {spell : List Text → Option Text} (spells : SpellsTemplates spell) :
    FindsTemplates (spellableCalls name spell) := by
  intro before c z
  rcases Template.headNamed_fill sn before c z with
    none | ⟨word, front, inside, whole, isFront, head⟩
  · exact .inl fun s _ => by rw [spellableCalls, none s]
  · have behind (s : Text) : (c :: fill s z).drop (front.length + 1) = fill s inside := by
      have filled : c :: fill s z = front ++ '(' :: fill s inside := by
        simpa using congrArg (fill s) whole
      simp [filled]
    rcases Template.closesAlike inside 0 with none | ⟨b, r, parts, closes⟩
    · refine .inl fun s grouped => ?_
      simp only [spellableCalls, head s, behind s, none s grouped]
    · obtain ⟨y, spelled⟩ := spells (parts.map Template.strip)
      have found (s : Text) (grouped : Grouped (· ≠ ';') s) :
          spellableCalls name spell before c (fill s z) =
            (y.map (fill s)).map fun y => ⟨front.length + 1 + (fill s b).length, y⟩ := by
        simp only [spellableCalls, head s, behind s, closes.body s grouped,
          closes.semicolonArguments grouped, spelled s]
      cases y with
      | none => exact .inl found
      | some y =>
        obtain ⟨d, front, rfl⟩ := List.exists_cons_of_ne_nil (isFront.ne_nil sn.ne_nil)
        obtain ⟨-, rfl⟩ := List.cons.inj whole
        refine .inr ⟨front.map some ++ some '(' :: b, r, y, by simp [closes.whole], ?_⟩
        intro s grouped
        have size : (fill s (front.map some ++ some '(' :: b)).length =
            (d :: front).length + (fill s b).length := by
          simp
          omega
        rw [found s grouped, size, Option.map_some, Option.map_some, Nat.add_right_comm]

/-- Nothing is found in the literal, wherever it stands. -/
def QuietIn (find : Finder Text) (s : Text) : Prop :=
  ∀ before rest, Quiet find before (place s none) rest

/-- **A search puts the fillings of one template together**, with as many finds. -/
theorem FindsTemplates.exists_outcome {find : Finder Text} (h : FindsTemplates find)
    (before : Option Char) (z : Template) : ∃ z' count, ∀ s, Grouped (· ≠ ';') s → QuietIn find s →
      find.outcome before (fill s z) = (fill s z', count) := by
  induction size : z.length using Nat.strong_induction_on generalizing before z with
  | _ n ih =>
  subst size
  rcases z with _ | ⟨_ | c, z⟩
  · exact ⟨[], 0, fun _ _ _ => rfl⟩
  · obtain ⟨z', count, more⟩ := ih z.length (Nat.lt_succ_self _) (some '"') z rfl
    refine ⟨none :: z', count, fun s grouped quiet => ?_⟩
    have last : lastOr before (place s none) = some '"' := lastOr_concat before ('"' :: s) '"'
    rw [Template.fill_cons, Finder.outcome_append_of_quiet (quiet _ _), last, more s grouped quiet,
      Template.fill_cons]
  · rcases h before c z with none | ⟨x, r, y, rfl, found⟩
    · obtain ⟨z', count, more⟩ := ih z.length (Nat.lt_succ_self _) (some c) z rfl
      refine ⟨some c :: z', count, fun s grouped quiet => ?_⟩
      change find.outcome before (c :: fill s z) = _
      rw [Finder.outcome_of_none (none s grouped), more s grouped quiet]
      rfl
    · obtain ⟨z', count, more⟩ := ih r.length (by simp; omega) (some ')') r rfl
      refine ⟨y ++ z', count + 1, fun s grouped quiet => ?_⟩
      have whole : fill s (x ++ some ')' :: r) = (fill s x ++ [')']) ++ fill s r := by simp
      have size : (fill s x).length + 1 = (fill s x ++ [')']).length := by simp
      have here := found s grouped
      rw [whole, size] at here
      have last : lastOr before (c :: (fill s x ++ [')'])) = some ')' :=
        lastOr_concat before (c :: fill s x) ')'
      change find.outcome before (c :: fill s (x ++ some ')' :: r)) = _
      rw [whole, Finder.outcome_of_found here, last, more s grouped quiet, Template.fill_append]

/-! ## 3. Harmless texts -/

/-- **Counting passes over the text, and nothing in it is spelled out.** -/
structure Harmless (w : Surroundings) (s : Text) : Prop where
  grouped : Grouped (· ≠ ';') s
  settled : IsSettled w s

/-- A text without parentheses and semicolons is harmless. -/
theorem harmless_of_plain (w : Surroundings) {s : Text}
    (plain : ∀ c ∈ s, c ≠ ';' ∧ c ≠ '(' ∧ c ≠ ')') : Harmless w s where
  grouped := .of_forall plain
  settled := expandOnce_of_free w fun _ => quiet_of_no_paren (by
    rw [List.append_nil]
    exact fun paren => (plain '(' paren).2.1 rfl)

/-- What a grouped text has in front of another, it has alone: a call that is closed there is closed
in the text. -/
theorem spellableCalls_append {p : Char → Prop} {name : Text} (sn : ShorthandName name)
    {spell : List Text → Option Text} {before before' : Option Char} {u v rest : Text} {c : Char}
    (grouped : Grouped p (u ++ c :: v)) (follows : Follows rest)
    (same : inWord before' = inWord before) (h : spellableCalls name spell before c v = none) :
    spellableCalls name spell before' c (v ++ rest) = none := by
  refine Option.eq_none_iff_forall_ne_some.mpr fun f found => ?_
  obtain ⟨outside, word, front, body, r, y, isFront, whole, closed, spelled, rfl⟩ :=
    (spellableCalls_eq_some_iff sn).mp found
  rw [← List.cons_append] at whole
  obtain ⟨t, cut, behind⟩ := exists_of_follows sn follows isFront whole
  rw [cut, ← List.append_assoc] at grouped
  obtain ⟨m, x, rfl, inside⟩ := grouped.exists_close
  rw [List.append_assoc, List.cons_append] at behind
  obtain ⟨rfl, -⟩ := closed.eq_of_closed inside behind
  have alone : spellableCalls name spell before c v = some ⟨front.length + 1 + body.length, y⟩ :=
    (spellableCalls_eq_some_iff sn).mpr
      ⟨same.symm.trans outside, word, front, body, x, y, isFront, cut, closed, spelled, rfl⟩
  rw [h] at alone
  cases alone

/-- What is quiet in a grouped text is quiet in front of another text as well. -/
theorem quiet_calls_append {p : Char → Prop} {name : Text} (sn : ShorthandName name)
    {spell : List Text → Option Text} {before before' : Option Char} {u v rest : Text}
    (grouped : Grouped p (u ++ v)) (follows : Follows rest)
    (same : inWord before' = inWord before)
    (quiet : Quiet (spellableCalls name spell) before v []) :
    Quiet (spellableCalls name spell) before' v rest := by
  induction v generalizing u before before' with
  | nil => trivial
  | cons c v ih =>
    have here := quiet.1
    rw [List.append_nil] at here
    refine ⟨spellableCalls_append sn grouped follows same here, ?_⟩
    rw [List.append_cons] at grouped
    exact ih grouped rfl quiet.2

/-- **A grouped text in which nothing is found stays quiet in a literal.** -/
theorem quietIn_calls {p : Char → Prop} {name : Text} (sn : ShorthandName name)
    {spell : List Text → Option Text} {s : Text} (grouped : Grouped p s)
    (quiet : Quiet (spellableCalls name spell) none s []) :
    QuietIn (spellableCalls name spell) s := by
  have quote (before : Option Char) (t : Text) : spellableCalls name spell before '"' t = none := by
    rw [spellableCalls, headNamed_of_not_letter sn (by decide)]
  have start : inWord (some '"') = inWord none := by decide
  intro before rest
  refine ⟨quote _ _, quiet_append.mpr ⟨?_, quote _ _, trivial⟩⟩
  exact @quiet_calls_append p name sn spell none (some '"') [] s _ grouped
    (.cons (by decide) (by decide) (by decide) _) start quiet

/-- Where nothing was spelled out in the end, nothing was with any of the shorthands. -/
theorem spellOut_of_spellOutEach {w : Surroundings} {ks : List Shorthand} {t u : Text} {n : Nat}
    (run : spellOutEach w ks ⟨t, n⟩ = .ok ⟨u, 0⟩) :
    n = 0 ∧ ∀ k ∈ ks, k.spellOut w t = .ok ⟨t, 0⟩ := by
  induction ks generalizing t n with
  | nil => exact ⟨congrArg SpelledOut.count (Except.ok.inj run), List.forall_mem_nil _⟩
  | cons k ks ih =>
    rw [spellOutEach_cons] at run
    have settles := settles_spellOut w k t
    cases step : k.spellOut w t with
    | error f =>
      rw [step] at run
      cases run
    | ok next =>
      obtain ⟨text, count⟩ := next
      rw [step] at run settles
      obtain ⟨zero, others⟩ : n + count = 0 ∧ ∀ k ∈ ks, k.spellOut w text = .ok ⟨text, 0⟩ := ih run
      obtain rfl : count = 0 := by omega
      obtain rfl : text = t := settles.same rfl
      exact ⟨by omega, List.forall_mem_cons.mpr ⟨step, others⟩⟩

/-- **A text is settled** if no shorthand is spelled out in it. -/
theorem isSettled_iff {w : Surroundings} {s : Text} :
    IsSettled w s ↔ ∀ k : Shorthand, k.spellOut w s = .ok ⟨s, 0⟩ :=
  ⟨fun settled k => (spellOut_of_spellOutEach settled).2 k k.mem_all,
    fun all => expandOnce_of_only (k := .conditional) (fun k _ => all k) (all _) fun k _ => all k⟩

/-! ## 4. Shorthands -/

namespace Shorthand

/-- The shorthand puts what the rule says in place of the calls; or a fact is missing, and then
calls that the rule applies to are a fault. -/
def Obeys (w : Surroundings) (k : Shorthand) (spell : List Text → Option Text) : Prop :=
  (∀ t, k.spellOut w t = .ok (spellAll (spellableCalls k.name.toList spell) t)) ∨
    ∃ f, ∀ t, k.spellOut w t =
      if (spellAll (spellableCalls k.name.toList spell) t).count = 0 then .ok ⟨t, 0⟩ else .error f

/-- A fact that is filled in is a rule. -/
theorem exists_obeys_fillIn {w : Surroundings} {k : Shorthand} {fact : Except ValueFault Int}
    (fills : k.spellOut w = fillIn k.name fact) : ∃ digits, k.Obeys w (spellFact digits) := by
  have calls (digits : Text) : spellableCalls k.name.toList (spellFact digits) =
      fun before c cs => (emptyCalls k.name.toList before c cs).map fun f => ⟨f.more, digits⟩ := by
    funext before c cs
    rw [emptyCalls_eq_spellableCalls k.shorthandName]
  have unknown (f : ValueFault) (fault : ∀ t, (emptyCalls k.name.toList).occurs t = true →
      fillIn k.name fact t = .error f) : k.Obeys w (spellFact []) := by
    refine .inr ⟨f, fun t => ?_⟩
    have count := occurs_eq_false_iff (emptyCalls k.name.toList) [] t
    rw [calls, fills]
    cases occurs : (emptyCalls k.name.toList).occurs t with
    | false =>
      rw [if_pos (count.mp occurs)]
      simp [fillIn, occurs]
    | true => rw [if_neg fun zero => by simp [count.mpr zero] at occurs, fault t occurs]
  cases fact with
  | error f =>
    refine ⟨[], unknown f fun t occurs => ?_⟩
    simp only [fillIn, occurs, if_true, bind, Except.bind]
  | ok n =>
    cases written : integerDigitsText n with
    | ok digits => exact ⟨digits, .inl fun t => by rw [calls, fills, fillIn_eq rfl written]⟩
    | error f =>
      refine ⟨[], unknown f fun t occurs => ?_⟩
      simp only [fillIn, occurs, written, if_true, bind, Except.bind]

/-- **Every shorthand obeys a rule**, and one that makes the same of arguments whatever is put in
their holes. -/
theorem exists_obeys (w : Surroundings) (k : Shorthand) :
    ∃ spell, SpellsTemplates spell ∧ k.Obeys w spell := by
  have filled {fact : Except ValueFault Int} (fills : k.spellOut w = fillIn k.name fact) :
      ∃ spell, SpellsTemplates spell ∧ k.Obeys w spell := by
    obtain ⟨digits, obeys⟩ := exists_obeys_fillIn fills
    exact ⟨_, spellsTemplates_fact digits, obeys⟩
  cases k with
  | conditional => exact ⟨_, spellsTemplates_conditional, .inl fun _ => rfl⟩
  | rounding => exact ⟨_, spellsTemplates_rounding, .inl fun _ => rfl⟩
  | average => exact ⟨_, spellsTemplates_average _, .inl fun _ => rfl⟩
  | weekday | month | quarter | weekend => exact filled rfl
  | tieredRate => exact ⟨_, spellsTemplates_tieredRate _, .inl fun _ => rfl⟩

variable {w : Surroundings} {k : Shorthand} {spell : List Text → Option Text}

/-- Nothing is spelled out exactly where no call is found. -/
theorem Obeys.quiet_iff (h : k.Obeys w spell) {t : Text} :
    k.spellOut w t = .ok ⟨t, 0⟩ ↔ Quiet (spellableCalls k.name.toList spell) none t [] := by
  constructor
  · intro same
    refine Finder.quiet_of_outcome ?_
    rcases h with known | ⟨f, unknown⟩
    · rw [known] at same
      exact congrArg SpelledOut.count (Except.ok.inj same)
    · by_contra some
      rw [unknown, spellAll_eq_outcome, if_neg some] at same
      cases same
  · intro quiet
    rcases h with known | ⟨f, unknown⟩
    · rw [known, spellAll_eq_outcome, Finder.outcome_of_quiet quiet]
    · rw [unknown, spellAll_eq_outcome, Finder.outcome_of_quiet quiet, if_pos rfl]

end Shorthand

/-! ## 5. Passes -/

/-- From the fillings of one template come, whatever harmless text is put there, the fillings of one
template, and as many calls are spelled out; or the same fault. -/
def KeepsTemplates (w : Surroundings) (spell : Text → Except ValueFault SpelledOut) : Prop :=
  ∀ z, ∃ r : Except ValueFault (Template × Nat), ∀ s, Harmless w s →
    spell (fill s z) = r.map fun out => ⟨fill s out.1, out.2⟩

section Passes

variable (w : Surroundings)

/-- **A shorthand is spelled out alike**, whatever harmless text stands in the holes. -/
theorem keepsTemplates_spellOut (k : Shorthand) : KeepsTemplates w (k.spellOut w) := by
  intro z
  obtain ⟨spell, spells, obeys⟩ := k.exists_obeys w
  obtain ⟨z', count, outcome⟩ :=
    (findsTemplates_calls k.shorthandName spells).exists_outcome none z
  have out (s : Text) (harmless : Harmless w s) :
      Shorthand.spellAll (spellableCalls k.name.toList spell) (fill s z) = ⟨fill s z', count⟩ := by
    have quiet := obeys.quiet_iff.mp (isSettled_iff.mp harmless.settled k)
    rw [Shorthand.spellAll_eq_outcome,
      outcome s harmless.grouped (quietIn_calls k.shorthandName harmless.grouped quiet)]
  rcases obeys with known | ⟨f, unknown⟩
  · exact ⟨.ok (z', count), fun s harmless => by rw [known, out s harmless, Except.map]⟩
  · refine ⟨if count = 0 then .ok (z, 0) else .error f, fun s harmless => ?_⟩
    rw [unknown, out s harmless]
    split <;> rfl

/-- **A pass keeps templates.** -/
theorem keepsTemplates_expandOnce : KeepsTemplates w (expandOnce w) := by
  intro z
  simp only [expandOnce_eq_spellOutEach]
  generalize 0 = n
  induction Shorthand.all generalizing z n with
  | nil => exact ⟨.ok (z, n), fun _ _ => rfl⟩
  | cons k ks ih =>
    obtain ⟨r, step⟩ := keepsTemplates_spellOut w k z
    cases r with
    | error f =>
      refine ⟨.error f, fun s harmless => ?_⟩
      rw [spellOutEach_cons, step s harmless]
      rfl
    | ok out =>
      obtain ⟨r, more⟩ := ih out.1 (n + out.2)
      refine ⟨r, fun s harmless => ?_⟩
      rw [spellOutEach_cons, step s harmless, ← more s harmless]
      rfl

/-- **Passes keep templates**, the limit of length apart. -/
theorem exists_expandWithin (passes : Nat) (z : Template) :
    ∃ r : Except Fault Template, ∀ s, Harmless w s →
      expandWithin w passes (fill s z) = r.map (fill s) ∨
        ∃ f, Overgrown w.settings f ∧ expandWithin w passes (fill s z) = .error f := by
  induction passes generalizing z with
  | zero => exact ⟨.ok z, fun _ _ => .inl rfl⟩
  | succ passes ih =>
    obtain ⟨once, step⟩ := keepsTemplates_expandOnce w z
    cases once with
    | error f =>
      refine ⟨.error (.value f), fun s harmless => .inl ?_⟩
      rw [expandWithin, step s harmless]
      rfl
    | ok out =>
      obtain ⟨z', count⟩ := out
      obtain ⟨r, more⟩ := ih z'
      refine ⟨if count = 0 then .ok z' else r, fun s harmless => ?_⟩
      rw [expandWithin, step s harmless, Except.map]
      dsimp only
      split
      · rename_i long
        exact .inr ⟨_, ⟨_, long, rfl⟩, rfl⟩
      · split
        · exact .inl rfl
        · exact more s harmless

/-- **What stands in a literal does not decide how the formula is spelled out**, and is not spelled
out itself, where it is harmless: there is one template that all the formulas come out as, unless
one grows too long. -/
theorem expand_literal (asked : Option Int) (x y : Text) :
    ∃ r : Except Fault Template, ∀ s, Harmless w s →
      expand w asked (.text (x ++ '"' :: (s ++ '"' :: y))) = r.map (fun z => .text (fill s z)) ∨
        ∃ f, Overgrown w.settings f ∧
          expand w asked (.text (x ++ '"' :: (s ++ '"' :: y))) = .error f := by
  obtain ⟨r, run⟩ := exists_expandWithin w (passLimit w asked) (x.map some ++ none :: y.map some)
  refine ⟨r, fun s harmless => ?_⟩
  have whole : fill s (x.map some ++ none :: y.map some) = x ++ '"' :: (s ++ '"' :: y) := by
    simp [place]
  rw [expand_text (by simp), ← whole]
  rcases run s harmless with out | ⟨f, long, out⟩
  · left
    rw [out]
    cases r <;> rfl
  · exact .inr ⟨f, long, by rw [out]; rfl⟩

end Passes

/-- A comparison with the name of a zone, be there parentheses in it. -/
theorem expand_literal_of_comparison : ∃ r : Except Fault Template,
    ∀ s ∈ ["Norte".toList, "Norte (1;2)".toList], Harmless .bare s ∧
      expand .bare none (.text ("SI(Zona == ".toList ++ '"' :: (s ++ '"' :: ";1;2)".toList))) =
        r.map fun z => .text (fill s z) := by
  obtain ⟨r, all⟩ := expand_literal .bare none "SI(Zona == ".toList ";1;2)".toList
  have short (s : Text) (harmless : Harmless .bare s) {out : Text}
      (run : expandWithin .bare (passLimit .bare none)
        ("SI(Zona == ".toList ++ '"' :: (s ++ '"' :: ";1;2)".toList)) = .ok out) :
      expand .bare none (.text ("SI(Zona == ".toList ++ '"' :: (s ++ '"' :: ";1;2)".toList))) =
        r.map fun z => .text (fill s z) := by
    refine (all s harmless).resolve_right ?_
    rintro ⟨f, -, fault⟩
    rw [expand_text (by simp), run] at fault
    cases fault
  have plain : Harmless .bare "Norte".toList := harmless_of_plain _ (by decide)
  have grouped : Grouped (· ≠ ';') ("Norte ".toList ++ '(' :: ("1;2".toList ++ ')' :: [])) :=
    .append (.of_forall (by decide)) (.group (.of_forall (by decide)) .nil)
  have settled : expandOnce .bare "Norte (1;2)".toList = .ok ⟨"Norte (1;2)".toList, 0⟩ := by
    decide +kernel
  have parens : Harmless .bare "Norte (1;2)".toList := ⟨grouped, settled⟩
  refine ⟨r, List.forall_mem_cons.mpr ⟨⟨plain, ?_⟩, List.forall_mem_singleton.mpr ⟨parens, ?_⟩⟩⟩
  · exact @short _ plain "(Zona == \"Norte\" ? 1 : 2)".toList (by decide +kernel)
  · exact @short _ parens "(Zona == \"Norte (1;2)\" ? 1 : 2)".toList (by decide +kernel)

/-- A semicolon in the literal is taken for one between arguments, and the call is left as it is. -/
example : expandOnce .bare "SI(Zona == \"Norte;Sur\";1;2)".toList =
    .ok ⟨"SI(Zona == \"Norte;Sur\";1;2)".toList, 0⟩ := by decide +kernel

end Haulage
