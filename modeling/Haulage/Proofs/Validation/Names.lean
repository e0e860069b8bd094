/-
# The names of a valid formula

Validation looks for names in a formula as it is written, and evaluation looks them up in what the
formula was prepared into, and only in the branches that are taken.  Still a valid formula leaves
hardly a name unresolved in any branch (`unresolved_of_isValid`).  Whatever name is left is in one of
four cases: it is a known function's, which validation takes for a call; it is `inf` or `nan`, which
come from the tiers of a rate; it starts with an underscore or a letter outside ASCII, where
validation sees no name; or it stands in nothing but what validation takes for text literals, and
came out of them when the formula was spelled out.

The formula has no line break behind a backslash.  Where it has one, the search for text literals and
the lexer part, and a name that is allowed may be left as well.
-/
import Haulage.Proofs.Report.Alternative
import Haulage.Proofs.Substitution.Names

namespace Haulage

open Lexer (Lexes Spells)
open NumericChoice (ComesBeside)

/-! ## 1. Unresolved names -/

namespace Expr

mutual

/-- The names in an expression that stand for nothing, in all of its branches: the variables, and
the functions that are called and not known. -/
def unresolved : Expr → List Text
  | number _ | text _ => []
  | name n => [n]
  | signed _ e => e.unresolved
  | binary _ l r => l.unresolved ++ r.unresolved
  | conditional c a b => c.unresolved ++ (a.unresolved ++ b.unresolved)
  | call n es => (if (calledFunction? n).isSome then [] else [n]) ++ unresolvedIn es

/-- The names in expressions that stand for nothing. -/
def unresolvedIn : List Expr → List Text
  | [] => []
  | e :: es => e.unresolved ++ unresolvedIn es

end

end Expr

mutual

/-- What is unresolved is written as a name. -/
theorem Form.mem_lexemes_of_unresolved {n : Text} : (f : Form) → n ∈ f.expr.unresolved →
    .name n ∈ f.lexemes
  | .number _, mem => nomatch mem
  | .text _, mem => nomatch mem
  | .name m, mem => by
    obtain rfl : n = m := List.mem_singleton.mp mem
    exact List.mem_singleton_self _
  | .paren f, mem => by
    have inside := f.mem_lexemes_of_unresolved mem
    simp [Form.lexemes, inside]
  | .signed _ f, mem => by
    have inside := f.mem_lexemes_of_unresolved mem
    simp [Form.lexemes, inside]
  | .binary _ l r, mem => by
    rcases List.mem_append.mp mem with mem | mem
    · simp [Form.lexemes, l.mem_lexemes_of_unresolved mem]
    · simp [Form.lexemes, r.mem_lexemes_of_unresolved mem]
  | .choice c a b, mem => by
    rcases List.mem_append.mp mem with mem | mem
    · simp [Form.lexemes, c.mem_lexemes_of_unresolved mem]
    · rcases List.mem_append.mp mem with mem | mem
      · simp [Form.lexemes, a.mem_lexemes_of_unresolved mem]
      · simp [Form.lexemes, b.mem_lexemes_of_unresolved mem]
  | .emptyCall m, mem => by
    have called : n = m := by simp_all [Form.expr, Expr.unresolved, Expr.unresolvedIn]
    simp [Form.lexemes, called]
  | .call m as, mem => by
    rcases List.mem_append.mp mem with mem | mem
    · have called : n = m := by simp_all
      simp [Form.lexemes, called]
    · simp [Form.lexemes, as.mem_lexemes_of_unresolved mem]

theorem Arguments.mem_lexemes_of_unresolved {n : Text} : (as : Arguments) →
    n ∈ Expr.unresolvedIn as.exprs → .name n ∈ as.lexemes
  | .last f, mem => by
    rcases List.mem_append.mp mem with mem | mem
    · exact f.mem_lexemes_of_unresolved mem
    · cases mem
  | .more f _ as, mem => by
    rcases List.mem_append.mp mem with mem | mem
    · simp [Arguments.lexemes, f.mem_lexemes_of_unresolved mem]
    · simp [Arguments.lexemes, as.mem_lexemes_of_unresolved mem]

end

/-- No name among lexemes starts with a digit. -/
theorem not_numeric_of_mem_lexes {s : Text} {ls : List Lexeme} (h : Lexes s ls) {n : Text}
    (mem : .name n ∈ ls) : ¬ Numeric n := by
  induction h with
  | nil => cases mem
  | blank _ _ ih => exact ih mem
  | token spells _ ih =>
    rcases List.mem_cons.mp mem with rfl | mem
    · cases spells with
      | name _ digit => simp [Numeric, digit]
    · exact ih mem

/-! ## 2. The search for names -/

/-- At no place inside a word does a name start. -/
theorem quiet_identifiers {w : Text} (word : ∀ d ∈ w, isNameChar d = true) {before : Option Char}
    (inside : inWord before = true) (rest : Text) : Quiet identifiers before w rest := by
  induction w generalizing before with
  | nil => trivial
  | cons c w ih =>
    obtain ⟨first, more⟩ := List.forall_mem_cons.mp word
    exact ⟨by simp [identifiers, inside], ih more first⟩

/-- **The search finds every name** that stands in a text. -/
theorem mem_piecesFrom_identifiers {n : Text} (name : IsName n) (t : Text) (stands : StandsIn n t)
    {before : Option Char} (start : inWord before = false ∨ inWord t.head? = false) :
    n ∈ (identifiers.piecesFrom before 0 t).filterMap Piece.content? := by
  induction t using Text.word_induction generalizing before with
  | nil =>
    obtain ⟨c, cs, rfl, -⟩ := name
    exact absurd (stands.part.isInfix.mem (.head cs)) List.not_mem_nil
  | other c cs outside ih =>
    have none : identifiers before c cs = none := by
      simp [identifiers, startsIdentifier, isAlpha_eq_false outside]
    have parts : StandsIn n ([c] ++ cs) := stands
    have there : StandsIn n cs := (parts.append_cases (.inl outside)).resolve_left fun alone => by
      obtain ⟨d, mem⟩ := List.exists_mem_of_ne_nil n alone.word.ne_nil
      have inside := alone.word.all d mem
      obtain rfl := List.mem_singleton.mp (alone.part.isInfix.mem mem)
      simp [outside] at inside
    rw [Finder.piecesFrom, none]
    exact ih there (.inl outside)
  | word w z word stop ih =>
    obtain ⟨c, cs, rfl⟩ := List.exists_cons_of_ne_nil word.ne_nil
    obtain ⟨first, more⟩ := List.forall_mem_cons.mp word.all
    have behind (there : StandsIn n z) :
        n ∈ (identifiers.piecesFrom (lastOr before (c :: cs)) 0 z).filterMap Piece.content? :=
      ih there (.inr stop)
    cases alpha : c.isAlpha with
    | true =>
      have outside : inWord before = false := start.resolve_right (by simp [first])
      have take : (cs ++ z).takeWhile isNameChar = cs := Lexer.takeWhile_append_of_all more stop
      have found : identifiers before c (cs ++ z) = some ⟨cs.length, c :: cs⟩ := by
        simp [identifiers, startsIdentifier, alpha, outside, take]
      rw [Finder.piecesFrom_of_found found]
      rcases stands.append_cases (.inr stop) with here | there
      · obtain rfl := here.eq_of_word word.all
        exact List.mem_cons_self
      · exact .tail _ (behind there)
    | false =>
      have inside : inWord (some c) = true := first
      have quiet : Quiet identifiers before (c :: cs) z :=
        ⟨by simp [identifiers, startsIdentifier, alpha], quiet_identifiers more inside z⟩
      have there : StandsIn n z := (stands.append_cases (.inr stop)).resolve_left fun here => by
        obtain rfl := here.eq_of_word word.all
        obtain ⟨d, ds, whole, letter, -⟩ := name
        obtain ⟨rfl, -⟩ := List.cons.inj whole
        simp [alpha] at letter
      rw [Finder.piecesFrom_append_of_quiet quiet, List.filterMap_append,
        filterMap_content?_map_kept]
      exact behind there

/-- A name outside text literals is a variable or known. -/
theorem mem_variablesOf {n s : Text} (name : IsName n) (stands : StandsIn n (blankLiterals s))
    (unknown : isKnownFunction n = false) : n ∈ variablesOf s := by
  rw [variablesOf, List.mem_eraseDups, List.mem_filter]
  exact ⟨mem_piecesFrom_identifiers name _ stands (.inl rfl), by simp [unknown]⟩

/-- A name that is not among the variables of a formula without text literals stands nowhere in it. -/
theorem not_standsIn_of_unused {n s : Text} (name : IsName n) (unknown : isKnownFunction n = false)
    (plain : '"' ∉ s) (unused : n ∉ variablesOf s) : ¬ StandsIn n s := by
  intro stands
  rw [← blankLiterals_of_plain plain] at stands
  exact unused (mem_variablesOf name stands unknown)

/-! ## 3. Sample values -/

namespace Sample

variable {names : List Text}

/-- Entries with one for a further name, unless it has one. -/
def withName (entries : List (Text × Value)) (name : Text) : List (Text × Value) :=
  if (entries.lookup name).isSome then entries else entries ++ [(name, .int 1)]

theorem bindings_eq (names : List Text) : bindings names =
    names.foldl withName (Quantity.all.map fun q => (q.name.toList, .int (amount q))) := rfl

theorem mem_foldl_withName {entries : List (Text × Value)} {entry : Text × Value}
    (mem : entry ∈ names.foldl withName entries) :
    entry ∈ entries ∨ ∃ n ∈ names, entry = (n, .int 1) := by
  induction names generalizing entries with
  | nil => exact .inl mem
  | cons n names ih =>
    rcases ih mem with there | ⟨m, there, rfl⟩
    · rw [withName] at there
      split at there
      · exact .inl there
      · exact (List.mem_append.mp there).imp_right fun there =>
          ⟨n, .head names, List.mem_singleton.mp there⟩
    · exact .inr ⟨m, .tail n there, rfl⟩

/-- A name that has an entry keeps it, and the further name has one. -/
theorem isSome_lookup_withName {entries : List (Text × Value)} {n m : Text}
    (h : (entries.lookup n).isSome = true ∨ n = m) :
    ((withName entries m).lookup n).isSome = true := by
  rw [withName]
  split
  · rename_i there
    rcases h with h | rfl
    · exact h
    · exact there
  · rw [List.lookup_append, Option.isSome_or]
    rcases h with h | rfl
    · simp [h]
    · simp

theorem isSome_lookup_foldl {entries : List (Text × Value)} {n : Text}
    (h : (entries.lookup n).isSome = true ∨ n ∈ names) :
    ((names.foldl withName entries).lookup n).isSome = true := by
  induction names generalizing entries with
  | nil => exact h.resolve_right List.not_mem_nil
  | cons m names ih =>
    refine ih ?_
    rcases h with there | mem
    · exact .inl (isSome_lookup_withName (.inl there))
    · exact (List.mem_cons.mp mem).imp_left fun same => isSome_lookup_withName (.inr same)

/-- Every allowed name has a sample value. -/
theorem isSome_lookup_bindings {n : Text} (allowed : isAllowed names n = true) :
    ((bindings names).lookup n).isSome = true := by
  rw [bindings_eq]
  refine isSome_lookup_foldl ?_
  rw [isAllowed, Bool.or_eq_true, List.any_eq_true] at allowed
  rcases allowed with ⟨q, mem, same⟩ | announced
  · left
    rw [List.lookup_isSome_iff]
    exact ⟨_, List.mem_map_of_mem mem, by simpa using (eq_of_beq same).symm⟩
  · exact .inr (by simpa using announced)

/-- A quantity has the sample value of its own, and every other name the value one. -/
theorem of_mem_bindings {entry : Text × Value} (mem : entry ∈ bindings names) :
    (∃ q : Quantity, entry = (q.name.toList, .int (amount q))) ∨ ∃ n ∈ names, entry = (n, .int 1) := by
  rw [bindings_eq] at mem
  refine (mem_foldl_withName mem).imp_left fun there => ?_
  obtain ⟨q, -, rfl⟩ := List.mem_map.mp there
  exact ⟨q, rfl⟩

theorem isName_quantity (q : Quantity) : IsName q.name.toList := by
  cases q <;> exact ⟨_, _, rfl, by decide, by decide⟩

/-- **A sample value is made ready as a finite number** under the name of a variable. -/
theorem ofValue_of_mem_bindings (proper : ∀ n ∈ names, IsName n) {entry : Text × Value}
    (mem : entry ∈ bindings names) :
    IsName entry.1 ∧ ∃ x, Datum.ofValue entry.2 = .ok (.number x) ∧ x.isFinite = true := by
  have ready {k : Int} (small : (Exact.ofInt? k).isSome = true) :
      ∃ x, Datum.ofValue (.int k) = .ok (.number x) ∧ x.isFinite = true := by
    obtain ⟨x, found⟩ := Option.isSome_iff_exists.mp small
    exact ⟨x, by simp [Datum.ofValue, found], isFinite_of_ofInt? found⟩
  rcases of_mem_bindings mem with ⟨q, rfl⟩ | ⟨n, announced, rfl⟩
  · exact ⟨isName_quantity q, ready (by cases q <;> decide +kernel)⟩
  · exact ⟨proper n announced, ready (by decide +kernel)⟩

end Sample

/-- **The sample values are finite numbers** under names of variables, and there is one under each
name that is allowed. -/
theorem exists_sampleData {names : List Text} (proper : ∀ n ∈ names, IsName n) :
    ∃ data, normalize (.mapping (Sample.bindings names)) = .ok data ∧
      (∀ entry ∈ data, IsName entry.1) ∧
      (∀ entry ∈ data, ∃ x, entry.2 = .number x ∧ x.isFinite = true) ∧
      ∀ n, isAllowed names n = true → (data.lookup n).isSome = true := by
  obtain ⟨data, normalized, same, good⟩ := exists_normalizeEntries
    (P := fun n d => IsName n ∧ ∃ x, d = .number x ∧ x.isFinite = true)
    fun entry mem => by
      obtain ⟨name, x, made, finite⟩ := Sample.ofValue_of_mem_bindings proper mem
      exact ⟨_, made, name, x, rfl, finite⟩
  refine ⟨data, normalize_mapping _ ▸ normalized, fun made mem => (good made mem).1,
    fun made mem => (good made mem).2, fun n allowed => ?_⟩
  obtain ⟨entry, there, key⟩ := List.lookup_isSome_iff.mp (Sample.isSome_lookup_bindings allowed)
  have key' : n ∈ data.map Prod.fst := by
    rw [same, eq_of_beq key]
    exact List.mem_map_of_mem there
  obtain ⟨made, mem, rfl⟩ := List.mem_map.mp key'
  exact List.lookup_isSome_iff.mpr ⟨made, mem, beq_self_eq_true _⟩

/-! ## 4. Valid formulas -/

/-- Does the word stand in the formula, but in no place where validation looks for names? -/
def Overlooked (n s : Text) : Prop :=
  StandsIn n s ∧ ¬ (IsName n ∧ StandsIn n (blankLiterals s))

section

variable {settings : Settings} {s : Text} {available : Value} {names : List Text}

theorem eq_of_formulaText? {s' : Text} (found : formulaText? (.text s) = .ok (some s')) : s' = s := by
  unfold formulaText? at found
  split at found
  · cases found
  · dsimp only at found
    split at found
    · cases found
    · exact (Option.some.inj (Except.ok.inj found)).symm

/-- An accepted formula is prepared into an expression that can be read, if it does not nest too
deeply and has no choice beside an operand. -/
theorem exists_prepare_of_isValid (announced : announcedNames available = .ok names)
    (valid : (validate settings (.text s) available).isValid = true) :
    (∀ n ∈ variablesOf s, isAllowed names n = true) ∧
    ∃ x, prepare (Sample.surroundings settings) (.mapping (Sample.bindings names)) (.text s) =
        .ok x ∧
      ((∃ e, readExpression x = .ok e) ∨ readExpression x = .error .tooDeep ∨ ComesBeside x) := by
  obtain ⟨names', s', v, announced', found, allowed, strict⟩ := accepted_of_isValid valid
  obtain rfl : names' = names := by simpa [announced] using announced'.symm
  obtain rfl := eq_of_formulaText? found
  obtain ⟨r, reports, early, -⟩ := evaluateStrictly_eq_ok_iff.mp strict
  obtain ⟨x, prepares, e, read⟩ := exists_prepare_of_isEarly reports early
  refine ⟨allowed, x, prepares, ?_⟩
  rcases read with read | read
  · exact .inl ⟨e, read⟩
  by_cases beside : ComesBeside x
  · exact .inr (.inr beside)
  obtain ⟨e', parses⟩ := exists_parsed_of_simplifyChoices beside ⟨e, parsed_of_readExpression read⟩
  rcases readExpression_eq_or x with same | deep
  · exact .inl ⟨e', same.trans parses⟩
  · exact .inr (.inl deep)

/-- A formula is accepted if it keeps the limits, uses allowed variables only, and has a value on
sample values. -/
theorem isValid_of_evaluateText {x : Text} {v : Float}
    (announced : announcedNames available = .ok names) (written : s.strip ≠ [])
    (moderate : excess? settings (.text s) = .ok none)
    (allowed : ∀ n ∈ variablesOf s, isAllowed names n = true)
    (prepares : prepare (Sample.surroundings settings) (.mapping (Sample.bindings names)) (.text s) =
      .ok x)
    (evaluates : evaluateText x = .ok v) :
    (validate settings (.text s) available).isValid = true := by
  have found := formulaText?_text written
  have short : isTooLong (Sample.surroundings settings) s = false := by
    rw [isTooLong, decide_eq_false_iff_not]
    intro long
    have : excess? settings (.text s) = .ok (some (.length s.length settings.maxFormulaLength)) :=
      if_pos long
    rw [moderate] at this
    cases this
  have strict : evaluateStrictly (Sample.surroundings settings) (.mapping (Sample.bindings names))
      (.text s) = .ok v := by
    have first : primaryStage standardEvaluator (.ok x) = .ok v :=
      standardEvaluator_eq_ok_iff.mpr evaluates
    simp [evaluateStrictly, reportStrictly, found, short, prepares, runStages, first, reportOf,
      Except.map]
  have none : (variablesOf s).filter (!isAllowed names ·) = [] :=
    List.filter_eq_nil_iff.mpr fun n mem => by simp [allowed n mem]
  have run : verdict settings (.text s) names = .ok (.accepted (variablesOf s)) := by
    simp [verdict, found, moderate, none, strict, bind, Except.bind]
  rw [validate, announced]
  dsimp only
  rw [run]
  rfl

/-- **A valid formula leaves few names unresolved.**  The expression that it is prepared into with
sample values can be read, unless it nests too deeply or has a choice beside an operand.  A name that
is left unresolved in any branch of it is that of a known function, `inf` or `nan`, or a word that
the search for names overlooks. -/
theorem unresolved_of_isValid (announced : announcedNames available = .ok names)
    (proper : ∀ n ∈ names, IsName n) (breaks : ¬ BreakEscaped s)
    (valid : (validate settings (.text s) available).isValid = true) :
    ∃ x, prepare (Sample.surroundings settings) (.mapping (Sample.bindings names)) (.text s) =
        .ok x ∧
      ((∃ e, readExpression x = .ok e) ∨ readExpression x = .error .tooDeep ∨ ComesBeside x) ∧
      ∀ e, parsed x = .ok e → ∀ n ∈ e.unresolved,
        isKnownFunction n = true ∨ n ∈ ["inf".toList, "nan".toList] ∨ Overlooked n s := by
  obtain ⟨allowed, x, prepares, reads⟩ := exists_prepare_of_isValid announced valid
  refine ⟨x, prepares, reads, fun e parses n mem => ?_⟩
  obtain ⟨data, normalized, isName, numbers, values⟩ := exists_sampleData proper
  obtain ⟨t, tame, rfl⟩ : ∃ t, Tame (fun n => IsSpelling n ∨ StandsIn n s) t ∧
      inlineLiterals (dataLiterals data) t = x := by
    rw [prepare, normalized] at prepares
    cases expands : expand (Sample.surroundings settings) none (.text s) with
    | error f => simp [expands] at prepares
    | ok v =>
      have takes : TakesSpellings fun n => IsSpelling n ∨ StandsIn n s := fun n => .inl
      obtain ⟨t, rfl, tame⟩ := tame_expand takes ⟨fun n stands => .inr stands, breaks⟩ expands
      simp only [expands] at prepares
      exact ⟨t, tame, Except.ok.inj prepares⟩
  -- the words that are left of those that name a datum
  let left (n : Text) : Prop := IsSpelling n ∨ isKnownFunction n = true ∨ Overlooked n s
  have takes : TakesSpellings left := fun n => .inl
  have words : ∀ m, StandsIn m t → data.lookup m = none → left m := by
    intro m stands none
    refine (tame.words m stands).imp_right fun there => ?_
    cases known : isKnownFunction m with
    | true => exact .inl rfl
    | false =>
      refine .inr ⟨there, ?_⟩
      rintro ⟨name, outside⟩
      simpa [none] using values m (allowed m (mem_variablesOf name outside known))
  obtain ⟨f, -, rfl, lexes⟩ := parsed_eq_ok_iff.mp parses
  have named := f.mem_lexemes_of_unresolved mem
  rcases of_mem_lexes_inlineLiterals isName numbers takes tame.breaks words lexes f.phrase.apart named
    with (numeric | spelled) | resolved
  · exact absurd numeric (not_numeric_of_mem_lexes lexes named)
  · rcases List.mem_cons.mp spelled with rfl | spelled
    · exact .inl (by decide +kernel)
    · exact .inr (.inl spelled)
  · exact resolved.imp_right .inr

end

/-- A conditional with a name in the branch that is not taken: both of its branches are prepared. -/
theorem prepare_of_conditional :
    prepare (Sample.surroundings .standard) (.mapping (Sample.bindings ["Extra".toList]))
      (.text "SI(Valor>10;1;Extra)".toList) = .ok "(100>10 ? 1 : 1)".toList := by
  have proper : ∀ n ∈ ["Extra".toList], IsName n :=
    List.forall_mem_singleton.mpr ⟨_, _, rfl, by decide, by decide⟩
  obtain ⟨data, normalized, names, -, -⟩ := exists_sampleData proper
  have values : (normalize (.mapping (Sample.bindings ["Extra".toList]))).map
      (fun data => ["Valor", "Extra"].map fun n => (data.lookup n.toList).map Datum.literal) =
        .ok [some "100".toList, some ['1']] := by
    decide +kernel
  rw [normalized] at values
  obtain ⟨value, extra⟩ : (data.lookup "Valor".toList).map Datum.literal = some "100".toList ∧
      (data.lookup "Extra".toList).map Datum.literal = some ['1'] := by
    simpa [Except.map] using values
  have expands : expand (Sample.surroundings .standard) none (.text "SI(Valor>10;1;Extra)".toList) =
      .ok (.text "(Valor>10 ? 1 : Extra)".toList) := by
    rw [expand_text_eq_ok_iff (by decide)]
    decide +kernel
  have inlined : inlineLiterals (dataLiterals data) "(Valor>10 ? 1 : Extra)".toList =
      "(100>10 ? 1 : 1)".toList := by
    have whole : inlineLiterals (dataLiterals data) "(Valor>10 ? 1 : Extra)".toList =
        inlineNames data none "(Valor>10 ? 1 : Extra)".toList :=
      outsideLiterals_of_plain rfl (by decide)
    have word {w : Text} {literal : Text} (found : (data.lookup w).map Datum.literal = some literal)
        (inside : w ≠ [] ∧ ∀ d ∈ w, isNameChar d = true) {before : Option Char}
        (outside : inWord before = false) {rest : Text} (stop : inWord rest.head? = false) :
        inlineNames data before (w ++ rest) = literal ++ inlineNames data (lastOr before w) rest := by
      obtain ⟨c, cs, rfl⟩ := List.exists_cons_of_ne_nil inside.1
      rw [inlineNames_word names inside.2 outside stop, found]
      rfl
    have other {x : Text} (none : ∀ c ∈ x, c.isAlpha = false) {before : Option Char} (rest : Text) :
        inlineNames data before (x ++ rest) = x ++ inlineNames data (lastOr before x) rest :=
      inlineNames_append_of_quiet (quiet_of_not_alpha names none before rest)
    have parts : "(Valor>10 ? 1 : Extra)".toList =
        ['('] ++ ("Valor".toList ++ (">10 ? 1 : ".toList ++ ("Extra".toList ++ ([')'] ++ [])))) := rfl
    rw [whole, parts, other (by decide), word value (by decide) (by decide) (by decide),
      other (by decide), word extra (by decide) (by decide) (by decide), other (by decide)]
    rfl
  rw [prepare, normalized]
  dsimp only
  rw [expands]
  dsimp only [inlineInto]
  rw [inlined]
  rfl

/-- What it is prepared into has a value. -/
theorem evaluateText_of_conditional : evaluateText "(100>10 ? 1 : 1)".toList = .ok 1 := by
  let f : Form :=
    .paren (.choice (.binary .greater (.number 100) (.number 10)) (.number 1) (.number 1))
  have one : Spells ['1'] (.number 1) [] := .number rfl rfl (by decide +kernel)
  have ten : Spells "10".toList (.number 10) [] := .number rfl rfl (by decide +kernel)
  have hundred : Spells "100".toList (.number 100) [] := .number rfl rfl (by decide +kernel)
  have spaced {l : Lexeme} {s : Text} (h : Lexes s [l]) : Lexes (' ' :: s) [l] := .blank (by decide) h
  have lexes : Lexes "(100>10 ? 1 : 1)".toList f.lexemes := by
    have parts : List.Forall₂ Lexes
        [['('], "100".toList, ['>'], "10".toList, " ?".toList, " 1".toList, " :".toList,
          " 1".toList, [')']] (f.lexemes.map fun l => [l]) :=
      .cons (Lexer.lexes_symbol rfl) (.cons hundred.lexes (.cons (Lexer.lexes_symbol rfl)
        (.cons ten.lexes (.cons (spaced (Lexer.lexes_symbol rfl)) (.cons (spaced one.lexes)
          (.cons (spaced (Lexer.lexes_symbol rfl)) (.cons (spaced one.lexes)
            (.cons (Lexer.lexes_symbol rfl) .nil))))))))
    exact Lexes.flatten parts f.phrase.apart
  have wf : f.WellFormed := ⟨⟨trivial, trivial, by decide, by decide⟩, trivial, trivial, by decide⟩
  have read : readExpression "(100>10 ? 1 : 1)".toList =
      .ok (.conditional (.binary .greater (.number 100) (.number 10)) (.number 1) (.number 1)) :=
    readExpression_of_parsed (parsed_eq_ok_iff.mpr ⟨f, wf, rfl, lexes⟩) lexes (by decide +kernel)
  rw [evaluateText, read]
  decide +kernel

/-- The branch that is not taken is a name that was announced. -/
theorem unresolved_of_isValid_conditional :
    (validate .standard (.text "SI(Valor>10;1;Extra)".toList) (.list [.text "Extra".toList])).isValid =
      true ∧
    ∃ x, prepare (Sample.surroundings .standard) (.mapping (Sample.bindings ["Extra".toList]))
        (.text "SI(Valor>10;1;Extra)".toList) = .ok x ∧
      ((∃ e, readExpression x = .ok e) ∨ readExpression x = .error .tooDeep ∨ ComesBeside x) ∧
      ∀ e, parsed x = .ok e → ∀ n ∈ e.unresolved,
        isKnownFunction n = true ∨ n ∈ ["inf".toList, "nan".toList] ∨
          Overlooked n "SI(Valor>10;1;Extra)".toList := by
  have announced : announcedNames (.list [.text "Extra".toList]) = .ok ["Extra".toList] := rfl
  have proper : ∀ n ∈ ["Extra".toList], IsName n :=
    List.forall_mem_singleton.mpr ⟨_, _, rfl, by decide, by decide⟩
  have valid : (validate .standard (.text "SI(Valor>10;1;Extra)".toList)
      (.list [.text "Extra".toList])).isValid = true :=
    isValid_of_evaluateText announced (by decide +kernel) (by decide +kernel) (by decide +kernel)
      prepare_of_conditional evaluateText_of_conditional
  exact ⟨valid, unresolved_of_isValid announced proper (not_breakEscaped (by decide)) valid⟩

end Haulage
