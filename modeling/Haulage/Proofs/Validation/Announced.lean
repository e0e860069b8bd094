/-
# Announcing more names

An announced name is a variable to evaluation, and inlining puts its sample value in place of every
word of that name outside text literals, whatever the word stands for.  Nothing else depends on what
is announced: where no word that is left to be inlined is a name that is new, validation comes to the
same verdict (`verdict_congr`).

A valid formula uses allowed variables only, so a name that is new to it should be no word of it.  It
is one all the same where the search for names sees none: in front of the arguments of a function,
which may have been written there when the formula was spelled out, and in what validation takes for
a text literal.  `validate_of_announced` says that announcing more keeps a formula valid except there.
-/
import Haulage.Proofs.Validation.Names

namespace Haulage

/-! ## 1. The words that inlining reads -/

/-- Does the word stand in the text outside text literals? -/
def StandsOutside (n s : Text) : Prop := ∃ x, .plain x ∈ segments s ∧ StandsIn n x

theorem StandsOutside.standsIn {n s : Text} (h : StandsOutside n s) : StandsIn n s := by
  obtain ⟨x, mem, stands⟩ := h
  exact stands.of_part ((segmented s).part mem)

section Lookups

variable {data data' : List (Text × Datum)} (names : ∀ entry ∈ data, IsName entry.1)
  (names' : ∀ entry ∈ data', IsName entry.1)

include names names'

/-- What becomes of a stretch depends on the data under its words only. -/
theorem inlineNames_congr (x : Text) (same : ∀ n, StandsIn n x → data.lookup n = data'.lookup n)
    {before before' : Option Char} (start : inWord before' = false ∨ inWord x.head? = false) :
    inlineNames data before' (pointed before x) = inlineNames data' before' (pointed before x) := by
  induction x using Text.word_induction generalizing before before' with
  | nil => rfl
  | other c cs outside ih =>
    have same' : ∀ n, StandsIn n cs → data.lookup n = data'.lookup n := by
      intro n stands
      exact same n (stands.of_part (.of_append_right (x := [c]) (.inl outside)))
    have step {d : Char} (other : isNameChar d = false) :
        inlineNames data before' (d :: pointed (some c) cs) =
          inlineNames data' before' (d :: pointed (some c) cs) := by
      have none := isAlpha_eq_false other
      have behind : inWord (some d) = false := other
      rw [inlineNames_cons names (.inl none), inlineNames_cons names' (.inl none),
        ih same' (.inl behind)]
    rcases pointed_cons before c cs with kept | ⟨rfl, -, -, point⟩
    · rw [kept]
      exact step outside
    · rw [point]
      exact step (by decide)
  | word w z word stop ih =>
    have cut : NoCut w z := .inr stop
    have rest : inlineNames data (lastOr before' w) (pointed (lastOr before w) z) =
        inlineNames data' (lastOr before' w) (pointed (lastOr before w) z) :=
      ih (fun n stands => same n (stands.of_part (.of_append_right cut))) (.inr stop)
    obtain ⟨c, cs, rfl⟩ := List.exists_cons_of_ne_nil word.ne_nil
    have outside : inWord before' = false := start.resolve_right (by simp [word.all c (.head cs)])
    have stop' : inWord (pointed (lastOr before (c :: cs)) z).head? = false :=
      inWord_head?_pointed stop
    rw [pointed_word_append word.all, inlineNames_word names word.all outside stop',
      inlineNames_word names' word.all outside stop', same _ ⟨word, .of_append_left cut⟩, rest]

/-- **What a text becomes depends on the data under its words outside literals only.** -/
theorem inlineLiterals_congr (s : Text)
    (same : ∀ n, StandsOutside n s → data.lookup n = data'.lookup n) :
    inlineLiterals (dataLiterals data) s = inlineLiterals (dataLiterals data') s := by
  have stretch (x : Text) (mem : .plain x ∈ segments s) :
      inlineNames data none (pointed none x) = inlineNames data' none (pointed none x) :=
    inlineNames_congr names names' x (fun n stands => same n ⟨x, mem, stands⟩) (.inl rfl)
  refine List.flatMap_congr fun g mem => ?_
  cases g with
  | plain x => exact stretch x mem
  | quoted t => rfl

end Lookups

/-! ## 2. The sample values of announced names -/

namespace Sample

/-- A further name has the value one, unless it has one already. -/
theorem lookup_withName (entries : List (Text × Value)) (m n : Text) :
    (withName entries m).lookup n = (entries.lookup n).or (if n = m then some (.int 1) else none) := by
  rw [withName]
  split
  · rename_i there
    split
    · rename_i same
      subst same
      rw [Option.or_of_isSome there]
    · exact Option.or_none.symm
  · rw [List.lookup_append]
    split
    · rename_i same
      subst same
      rw [List.lookup_cons_self]
    · rename_i other
      rw [List.lookup_cons, beq_eq_false_iff_ne.mpr other]
      rfl

theorem lookup_foldl_withName (names : List Text) (entries : List (Text × Value)) (n : Text) :
    (names.foldl withName entries).lookup n =
      (entries.lookup n).or (if n ∈ names then some (.int 1) else none) := by
  induction names generalizing entries with
  | nil => simp
  | cons m names ih =>
    rw [List.foldl_cons, ih, lookup_withName, Option.or_assoc]
    congr 1
    by_cases same : n = m <;> by_cases mem : n ∈ names <;> simp [same, mem]

/-- **A name has the same sample value** among some names as among more, unless it is announced among
these only. -/
theorem lookup_bindings_of_allowed {names more : List Text} (included : names ⊆ more) {n : Text}
    (old : n ∈ more → isAllowed names n = true) :
    (bindings names).lookup n = (bindings more).lookup n := by
  rw [bindings_eq, bindings_eq, lookup_foldl_withName, lookup_foldl_withName]
  cases standard : (Quantity.all.map fun q => (q.name.toList, Value.int (amount q))).lookup n with
  | some v => rfl
  | none =>
    have announced : n ∈ names ↔ n ∈ more := by
      refine ⟨fun mem => included mem, fun mem => ?_⟩
      have allowed := old mem
      rw [isAllowed, Bool.or_eq_true, List.any_eq_true] at allowed
      rcases allowed with ⟨q, mem, same⟩ | allowed
      · rw [List.lookup_eq_none_iff] at standard
        have other := standard _ (List.mem_map_of_mem mem)
        simp [eq_of_beq same] at other
      · simpa using allowed
    simp only [announced]

end Sample

/-- Data are the same under a name if what they were made of is. -/
theorem lookup_eq_of_normalizeEntries {entries entries' : List (Text × Value)}
    {data data' : List (Text × Datum)} (ready : normalizeEntries entries = .ok data)
    (ready' : normalizeEntries entries' = .ok data') {n : Text}
    (same : entries.lookup n = entries'.lookup n) : data.lookup n = data'.lookup n := by
  have found := lookup_normalizeEntries ready n
  have found' := lookup_normalizeEntries ready' n
  rw [same] at found
  cases there : entries'.lookup n with
  | none =>
    simp only [there] at found found'
    rw [found, found']
  | some v =>
    simp only [there] at found found'
    obtain ⟨d, made, found⟩ := found
    obtain ⟨d', made', found'⟩ := found'
    obtain rfl : d = d' := by simpa [made] using made'
    rw [found, found']

/-! ## 3. The verdict -/

theorem IsName.not_numeric {n : Text} (h : IsName n) : ¬ Numeric n := by
  obtain ⟨c, cs, rfl, alpha, -⟩ := h
  intro numeric
  rw [isAlpha_of_isDigitLike numeric] at alpha
  cases alpha

section

variable {settings : Settings} {names more : List Text} {s : Text}

/-- A formula that is a text is spelled out as a text. -/
theorem exists_text_of_expand {w : Surroundings} {asked : Option Int} {out : Value}
    (h : expand w asked (.text s) = .ok out) : ∃ t, out = .text t := by
  by_cases empty : s = []
  · subst empty
    exact ⟨[], (Except.ok.inj h).symm⟩
  · rw [expand_text empty] at h
    cases run : expandWithin w (passLimit w asked) s with
    | error f =>
      rw [run] at h
      cases h
    | ok t =>
      rw [run] at h
      exact ⟨t, (Except.ok.inj h).symm⟩

/-- **A formula is prepared alike** with more names announced, if none of the words that inlining
reads in it is new. -/
theorem prepare_congr (proper : ∀ n ∈ more, IsName n) (included : names ⊆ more)
    (old : ∀ t, expand (Sample.surroundings settings) none (.text s) = .ok (.text t) →
      ∀ n ∈ more, StandsOutside n t → isAllowed names n = true) :
    prepare (Sample.surroundings settings) (.mapping (Sample.bindings more)) (.text s) =
      prepare (Sample.surroundings settings) (.mapping (Sample.bindings names)) (.text s) := by
  have proper' : ∀ n ∈ names, IsName n := fun n mem => proper n (included mem)
  obtain ⟨data, normalized, isName, -, -⟩ := exists_sampleData proper'
  obtain ⟨data', normalized', isName', -, -⟩ := exists_sampleData proper
  rw [prepare, prepare, normalized, normalized']
  cases expands : expand (Sample.surroundings settings) none (.text s) with
  | error f => rfl
  | ok out =>
    obtain ⟨t, rfl⟩ := exists_text_of_expand expands
    have same (n : Text) (stands : StandsOutside n t) : data'.lookup n = data.lookup n := by
      rw [normalize_mapping] at normalized normalized'
      refine (lookup_eq_of_normalizeEntries normalized normalized' ?_).symm
      exact Sample.lookup_bindings_of_allowed included fun mem => old t expands n mem stands
    dsimp only [inlineInto]
    rw [inlineLiterals_congr isName' isName t same]

/-- A strict evaluation depends on its inputs only through what the formula is prepared into. -/
theorem evaluateStrictly_congr {w : Surroundings} {inputs inputs' formula : Value}
    (same : prepare w inputs formula = prepare w inputs' formula) :
    evaluateStrictly w inputs formula = evaluateStrictly w inputs' formula := by
  rw [evaluateStrictly, evaluateStrictly, reportStrictly, reportStrictly, same]

theorem isAllowed_mono (included : names ⊆ more) {n : Text} (h : isAllowed names n = true) :
    isAllowed more n = true := by
  rw [isAllowed, Bool.or_eq_true] at h ⊢
  refine h.imp_right fun announced => ?_
  rw [List.contains_iff_mem] at announced ⊢
  exact included announced

/-- **The verdict does not depend on what else is announced**, if all variables are allowed already
and the formula is evaluated alike. -/
theorem verdict_congr (included : names ⊆ more)
    (allowed : ∀ n ∈ variablesOf s, isAllowed names n = true)
    (same : prepare (Sample.surroundings settings) (.mapping (Sample.bindings more)) (.text s) =
      prepare (Sample.surroundings settings) (.mapping (Sample.bindings names)) (.text s)) :
    verdict settings (.text s) more = verdict settings (.text s) names := by
  have none : (variablesOf s).filter (!isAllowed names ·) = [] :=
    List.filter_eq_nil_iff.mpr fun n mem => by simp [allowed n mem]
  have none' : (variablesOf s).filter (!isAllowed more ·) = [] :=
    List.filter_eq_nil_iff.mpr fun n mem => by simp [isAllowed_mono included (allowed n mem)]
  have strict := evaluateStrictly_congr same
  simp only [verdict]
  cases found : formulaText? (.text s) with
  | error f => rfl
  | ok text =>
    cases text with
    | none => rfl
    | some s' =>
      obtain rfl := eq_of_formulaText? found
      simp only [bind, Except.bind, none, none', strict]

/-- A name that stands outside literals when the formula is spelled out, and is no variable of the
formula, was written by spelling out, or it stands in the formula where the search for names passes
it over. -/
theorem spelled_or_standsIn {t n : Text} (breaks : ¬ BreakEscaped s) (name : IsName n)
    (expands : expand (Sample.surroundings settings) none (.text s) = .ok (.text t))
    (stands : StandsOutside n t) (unused : n ∉ variablesOf s) :
    n ∈ ["round".toList, "inf".toList, "nan".toList] ∨
      StandsIn n s ∧ (isKnownFunction n = true ∨ ¬ StandsIn n (blankLiterals s)) := by
  have takes : TakesSpellings fun n => IsSpelling n ∨ StandsIn n s := fun n => .inl
  obtain ⟨t', same, tame⟩ := tame_expand takes ⟨fun n stands => .inr stands, breaks⟩ expands
  obtain rfl := Value.text.inj same
  rcases tame.words n stands.standsIn with (numeric | spelled) | there
  · exact absurd numeric name.not_numeric
  · exact .inl spelled
  · refine .inr ⟨there, ?_⟩
    cases known : isKnownFunction n with
    | true => exact .inl rfl
    | false => exact .inr fun outside => unused (mem_variablesOf name outside known)

/-- **Announcing more names keeps a formula valid**, with the same verdict, unless one of them that
was not allowed is inlined into what the formula is spelled out as.  Such a name is no variable of the
formula: spelling out wrote it, or it stands in the formula as the name of a function or in nothing
but text literals. -/
theorem validate_of_announced {available further : Value}
    (announced : announcedNames available = .ok names)
    (announced' : announcedNames further = .ok more) (proper : ∀ n ∈ more, IsName n)
    (included : names ⊆ more)
    (valid : (validate settings (.text s) available).isValid = true) :
    validate settings (.text s) further = validate settings (.text s) available ∨
      ∃ t, expand (Sample.surroundings settings) none (.text s) = .ok (.text t) ∧
        ∃ n ∈ more, isAllowed names n = false ∧ StandsOutside n t ∧ (¬ BreakEscaped s →
          n ∈ ["round".toList, "inf".toList, "nan".toList] ∨
            StandsIn n s ∧ (isKnownFunction n = true ∨ ¬ StandsIn n (blankLiterals s))) := by
  obtain ⟨allowed, -⟩ := exists_prepare_of_isValid announced valid
  by_cases old : ∀ t, expand (Sample.surroundings settings) none (.text s) = .ok (.text t) →
      ∀ n ∈ more, StandsOutside n t → isAllowed names n = true
  · left
    rw [validate, validate, announced, announced']
    dsimp only
    rw [verdict_congr included allowed (prepare_congr proper included old)]
  · right
    push Not at old
    obtain ⟨t, expands, n, mem, stands, new⟩ := old
    have unused : n ∉ variablesOf s := fun used => new (allowed n used)
    refine ⟨t, expands, n, mem, Bool.eq_false_iff.mpr new, stands, ?_⟩
    intro breaks
    exact spelled_or_standsIn breaks (proper n mem) expands stands unused

end

/-- A further name is announced that the formula does not use. -/
theorem validate_of_announced_other :
    (validate .standard (.text "SI(Valor>10;1;Extra)".toList)
      (.list [.text "Extra".toList])).isValid = true ∧
    validate .standard (.text "SI(Valor>10;1;Extra)".toList)
        (.list [.text "Extra".toList, .text "Other".toList]) =
      validate .standard (.text "SI(Valor>10;1;Extra)".toList) (.list [.text "Extra".toList]) := by
  have announced : announcedNames (.list [.text "Extra".toList]) = .ok ["Extra".toList] := rfl
  have announced' : announcedNames (.list [.text "Extra".toList, .text "Other".toList]) =
      .ok ["Extra".toList, "Other".toList] := rfl
  have proper : ∀ n ∈ ["Extra".toList, "Other".toList], IsName n := by
    refine List.forall_mem_cons.mpr ⟨⟨_, _, rfl, by decide, by decide⟩, ?_⟩
    exact List.forall_mem_singleton.mpr ⟨_, _, rfl, by decide, by decide⟩
  have valid : (validate .standard (.text "SI(Valor>10;1;Extra)".toList)
      (.list [.text "Extra".toList])).isValid = true :=
    isValid_of_evaluateText announced (by decide +kernel) (by decide +kernel) (by decide +kernel)
      prepare_of_conditional evaluateText_of_conditional
  refine ⟨valid, ?_⟩
  rcases validate_of_announced announced announced' proper (by simp) valid with same | ⟨-, -, n, mem,
    new, -, unused⟩
  · exact same
  -- the formula does not have the other name anywhere
  · have other : n = "Other".toList := by
      rcases List.mem_cons.mp mem with rfl | mem
      · exact absurd new (by decide)
      · exact List.mem_singleton.mp mem
    subst other
    rcases unused (not_breakEscaped (by decide)) with spelled | ⟨stands, -⟩
    · exact absurd spelled (by decide)
    · exact absurd stands.part.isInfix (by decide)

/-- The name of a function is inlined like any other if it is announced, and the call is none. -/
example : inlineLiterals (dataLiterals [("round".toList, .number 1)]) "round(X, 2)".toList =
    "1(X, 2)".toList := by
  decide +kernel

end Haulage
