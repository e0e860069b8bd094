/-
# The tier that a tiered rate selects

A tiered rate is spelled out as a chain of choices, lower thresholds first.  So an amount is charged
by the lowest tier that it does not exceed, of equal ones the first that is listed, and by the highest
tier if it exceeds them all, of equal ones the last that is listed.  `Applies` says which tier that
is, and `eval_expand_tieredRate` that its tariff is what the chain evaluates to.

The chain is built from the sorted tiers, and there is only one stable order.  That is why the order
in which different thresholds are listed does not matter.
-/
import Haulage.Proofs.Number.Reading
import Haulage.Proofs.Formula.Literal
import Haulage.Proofs.Formula.Parsing
import Haulage.Proofs.Shorthand.Pass
import Haulage.Proofs.Sorting

namespace Haulage

open Lexer (Lexes)

/-! ## 1. Tiers as they are listed -/

/-- The value of the threshold of a tier. -/
def Tier.rank (t : Tier) : ℚ :=
  match t.threshold with
  | .int n => n
  | .float x => exactValue x

/-- A tier as it is listed, perhaps between blanks: a threshold, a colon and a tariff. -/
structure ListedTier where
  text : Text
  threshold : Float
  tariff : Float
  reads : Tier.read? text.strip = some ⟨.float threshold, .float tariff⟩
  finite_threshold : threshold.isFinite = true
  finite_tariff : tariff.isFinite = true

namespace ListedTier

/-- What is read. -/
def tier (t : ListedTier) : Tier := ⟨.float t.threshold, .float t.tariff⟩

/-- The value of the threshold. -/
def rank (t : ListedTier) : ℚ := t.tier.rank

theorem lt_iff (t u : ListedTier) : t.threshold < u.threshold ↔ t.rank < u.rank :=
  Haulage.lt_iff t.finite_threshold u.finite_threshold

theorem beq_iff (t u : ListedTier) : (t.threshold == u.threshold) = true ↔ t.rank = u.rank :=
  Haulage.beq_iff t.finite_threshold u.finite_threshold

/-- The tiers of one threshold are those of one rank. -/
theorem filter_beq (t : ListedTier) (ts : List ListedTier) :
    ts.filter (·.threshold == t.threshold) = ts.filter fun u => u.rank = t.rank :=
  List.filter_congr fun u _ => by rw [Bool.eq_iff_iff, beq_iff, decide_eq_true_eq]

end ListedTier

/-- Is the number at most the threshold? -/
def Number.atMost (x : Number) (threshold : Float) : Bool :=
  (x.compare? (.float threshold)).any Relation.atMost.holds

/-- The tier that applies to a number. -/
inductive Applies (x : Number) (listed : List ListedTier) : ListedTier → Prop
  /-- Of the tiers that the number does not exceed the lowest, and of equal ones the first. -/
  | within {t : ListedTier} (covers : x.atMost t.threshold = true)
      (least : ∀ u ∈ listed, x.atMost u.threshold = true → ¬u.threshold < t.threshold)
      (first : listed.find? (·.threshold == t.threshold) = some t) : Applies x listed t
  /-- If the number exceeds them all, the highest tier, and of equal ones the last. -/
  | beyond {t : ListedTier} (above : ∀ u ∈ listed, (Number.float u.threshold).less x = true)
      (greatest : ∀ u ∈ listed, ¬t.threshold < u.threshold)
      (last : listed.reverse.find? (·.threshold == t.threshold) = some t) : Applies x listed t

/-! ## 2. How tiers are written -/

/-- Nothing is lost by splitting a text. -/
theorem join_splitAtChar (separator : Char) (s : Text) :
    Text.join [separator] (s.splitAtChar separator) = s := by
  induction s with
  | nil => rfl
  | cons c s ih =>
    obtain ⟨part, parts, whole⟩ := List.exists_cons_of_ne_nil (Text.splitAtChar_ne_nil separator s)
    rw [Text.splitAtChar]
    rw [whole] at ih ⊢
    split
    · rename_i same
      obtain rfl : c = separator := beq_iff_eq.mp same
      simp [Text.join, ih]
    · cases parts <;> simpa [Text.join] using ih

/-- What is foreign to numbers stands in no half of a tier, the comma apart. -/
theorem not_mem_of_readHalf? {c : Char} (foreign : IsForeign c) (other : c ≠ ',') {s : Text}
    {x : Number} (h : Tier.readHalf? s = some x) : c ∉ s := by
  intro mem
  obtain ⟨y, read, -⟩ := Option.map_eq_some_iff.mp h
  have strip := mem_strip foreign.blank mem
  refine not_mem_of_readFloat? foreign read (List.mem_map.mpr ⟨c, strip, if_neg ?_⟩)
  rwa [beq_iff_eq]

theorem not_mem_of_readTier? {c : Char} (foreign : IsForeign c) (other : c ≠ ',') (apart : c ≠ ':')
    {s : Text} {t : Tier} (h : Tier.read? s = some t) : c ∉ s := by
  intro mem
  unfold Tier.read? at h
  split at h
  · rename_i first second whole
    split at h
    · rename_i half half'
      rw [← join_splitAtChar ':' s, whole] at mem
      simp only [Text.join, List.mem_append, List.mem_singleton, apart, or_false] at mem
      exact mem.elim (not_mem_of_readHalf? foreign other half)
        (not_mem_of_readHalf? foreign other half')
    · cases h
  · cases h

/-- A tier holds no parentheses and no semicolon. -/
theorem ListedTier.not_mem_text (t : ListedTier) : ∀ c ∈ "();".toList, c ∉ t.text := by
  intro c listed mem
  have inside : ∀ c ∈ "();".toList, c ∈ marks ∧ c ≠ ',' ∧ c ≠ ':' := by decide
  obtain ⟨mark, other, apart⟩ := inside c listed
  have foreign := isForeign_of_mem_marks mark
  exact not_mem_of_readTier? foreign other apart t.reads (mem_strip foreign.blank mem)

/-! ## 3. The chain of choices -/

/-- The parts of the first choice. -/
theorem choicesOf_cons (amount otherwise : Text) (t : Tier) (ts : List Tier) :
    choicesOf amount otherwise (t :: ts) =
      ["(".toList, "(".toList, amount, ")".toList, " <= ".toList, t.threshold.text, " ? ".toList,
        t.tariff.text, " : ".toList, choicesOf amount otherwise ts, ")".toList].flatten := by
  -- The equation of the definition is costly to generate, so it is unfolded by hand.
  change "((".toList ++ amount ++ ") <= ".toList ++ t.threshold.text ++ " ? ".toList ++
    t.tariff.text ++ " : ".toList ++ choicesOf amount otherwise ts ++ [')'] = _
  simp only [List.flatten_cons, List.flatten_nil, List.append_assoc, List.append_nil]
  rfl

/-- The form of the choices between tiers. -/
def Form.tiers (amount : Form) (otherwise : Float) : List ListedTier → Form
  | [] => ofFloat otherwise
  | t :: ts =>
    .paren (.choice (.binary .atMost (.paren amount) (ofFloat t.threshold)) (ofFloat t.tariff)
      (amount.tiers otherwise ts))

namespace Form

variable (amount : Form) (otherwise : Float)

theorem wellFormed_tiers (wf : amount.WellFormed) (ts : List ListedTier) :
    (amount.tiers otherwise ts).WellFormed := by
  induction ts with
  | nil => exact wellFormed_ofFloat otherwise
  | cons t ts ih =>
    have rank := le_rank_ofFloat t.threshold
    exact ⟨⟨wf, wellFormed_ofFloat t.threshold, show 1 ≤ 6 by decide,
      show 1 < (ofFloat t.threshold).rank by omega⟩, wellFormed_ofFloat t.tariff, ih,
      show 1 ≤ 1 by decide⟩

theorem calls_tiers (ts : List ListedTier) :
    ∀ call ∈ (amount.tiers otherwise ts).expr.calls, call ∈ amount.expr.calls := by
  have float (x : Float) : (ofFloat x).expr.calls = [] := by
    unfold ofFloat
    split <;> rfl
  induction ts with
  | nil => simp [tiers, float]
  | cons t ts ih => simpa [tiers, expr, Expr.calls, float, or_imp, forall_and] using ih

theorem lexes_tiers {value : Text} (h : Lexes value amount.lexemes)
    (finite : otherwise.isFinite = true) (ts : List ListedTier) :
    Lexes (choicesOf value (numberText otherwise) (ts.map ListedTier.tier))
      (amount.tiers otherwise ts).lexemes := by
  induction ts with
  | nil => exact lexes_numberText finite
  | cons t ts ih =>
    have opens : Lexes "(".toList [.symbol .openParen] := Lexer.lexes_symbol rfl
    have closes : Lexes ")".toList [.symbol .closeParen] := Lexer.lexes_symbol rfl
    have atMost : Lexes " <= ".toList [.symbol (.operator .atMost)] := by
      have spells : Lexer.Spells "<=".toList (.symbol (.operator .atMost)) " ".toList := .pair rfl
      exact .blank rfl (.token spells (.blank rfl .nil))
    have question : Lexes " ? ".toList [.symbol .question] := Lexer.lexes_spaced rfl
    have colon : Lexes " : ".toList [.symbol .colon] := Lexer.lexes_spaced rfl
    have threshold := lexes_numberText t.finite_threshold
    have tariff := lexes_numberText t.finite_tariff
    have apart := (amount.tiers otherwise (t :: ts)).phrase.apart
    have whole : (amount.tiers otherwise (t :: ts)).lexemes = [[.symbol .openParen],
        [.symbol .openParen], amount.lexemes, [.symbol .closeParen], [.symbol (.operator .atMost)],
        (ofFloat t.threshold).lexemes, [.symbol .question], (ofFloat t.tariff).lexemes,
        [.symbol .colon], (amount.tiers otherwise ts).lexemes, [.symbol .closeParen]].flatten := by
      simp [tiers, lexemes]
    rw [whole] at apart ⊢
    have out := Lexes.flatten (.cons opens (.cons opens (.cons h (.cons closes (.cons atMost
      (.cons threshold (.cons question (.cons tariff (.cons colon (.cons ih
      (.cons closes .nil))))))))))) apart
    rw [List.map_cons, choicesOf_cons]
    exact out

end Form

/-! ## 4. The tier that is selected -/

/-- Reading a threshold back does not change what it covers. -/
theorem atMost_readBack (x : Number) {threshold : Float} (finite : threshold.isFinite = true) :
    x.atMost (readBack threshold) = x.atMost threshold := by
  rw [Number.atMost, Number.atMost, compare?_congr x (readBack_beq finite)]

theorem related_atMost {v : Value} {x : Number} (number : v.number? = some x) (y : Float) :
    Value.related .atMost v (.float y) = .ok (x.atMost y) := by
  have float : (Value.float y).number? = some (.float y) := rfl
  unfold Value.related
  split
  · cases number
  · cases number
  · rw [number, float]
    simp only [Number.atMost]
    cases x.compare? (.float y) <;> rfl

/-- **The chain evaluates to the tariff of the first tier that covers the amount**, or to what stands
at its end. -/
theorem Form.eval_tiers {amount : Form} {bindings : Bindings} {v : Value} {x : Number}
    (value : amount.expr.eval bindings = .ok v) (number : v.number? = some x) (otherwise : Float)
    (ts : List ListedTier) :
    (amount.tiers otherwise ts).expr.eval bindings =
      .ok (.float (readBack (((ts.find? fun t => x.atMost t.threshold).map
        ListedTier.tariff).getD otherwise))) := by
  induction ts with
  | nil => exact eval_ofFloat otherwise bindings
  | cons t ts ih =>
    have condition : Expr.eval bindings
        (.binary .atMost amount.expr (ofFloat t.threshold).expr) = .ok (.bool (x.atMost t.threshold)) := by
      rw [Expr.eval, value]
      dsimp only
      rw [eval_ofFloat]
      dsimp only
      rw [Operator.apply, related_atMost number, atMost_readBack x t.finite_threshold]
      rfl
    change Expr.eval bindings (.conditional (.binary .atMost amount.expr (ofFloat t.threshold).expr)
      (ofFloat t.tariff).expr (amount.tiers otherwise ts).expr) = _
    rw [Expr.eval, condition, List.find?_cons]
    cases x.atMost t.threshold with
    | true => exact eval_ofFloat t.tariff bindings
    | false => exact ih

section

variable {sorted listed : List ListedTier} {x : Number} {t : ListedTier}

theorem applies_of_covers (h : Sorts ListedTier.rank sorted listed)
    (found : sorted.find? (fun t => x.atMost t.threshold) = some t) : Applies x listed t := by
  obtain ⟨covers, front, back, whole, others⟩ := List.find?_eq_some_iff_append.mp found
  have others : ∀ u ∈ front, x.atMost u.threshold = false := fun u hu => by simpa using others u hu
  refine .within covers (fun u hu covers' => ?_) ?_
  · rw [u.lt_iff, not_lt]
    have mem := h.mem_iff.mpr hu
    rw [whole] at mem
    rcases List.mem_append.mp mem with mem | mem
    · simp [others u mem] at covers'
    · have behind := (List.pairwise_append.mp (whole ▸ h.ordered)).2.1
      rcases List.mem_cons.mp mem with rfl | mem
      · exact le_rfl
      · exact (List.pairwise_cons.mp behind).1 u mem
  · have none : front.filter (fun u => u.rank = t.rank) = [] :=
      List.filter_eq_nil_iff.mpr fun u hu same => by
        have same : (u.threshold == t.threshold) = true := by simpa [u.beq_iff] using same
        have := others u hu
        rw [Number.atMost, compare?_congr x same] at this
        exact Bool.false_ne_true (this.symm.trans covers)
    rw [← List.head?_filter, ListedTier.filter_beq, ← h.stable, whole, List.filter_append, none]
    simp

theorem applies_of_none (h : Sorts ListedTier.rank sorted listed)
    (number : ∀ y, x = .float y → y.isNaN = false)
    (none : sorted.find? (fun t => x.atMost t.threshold) = none) (last : sorted.getLast? = some t) :
    Applies x listed t := by
  obtain ⟨front, whole⟩ := List.getLast?_eq_some_iff.mp last
  refine .beyond (fun u hu => ?_) (fun u hu => ?_) ?_
  · have above := List.find?_eq_none.mp none u (h.mem_iff.mpr hu)
    obtain ⟨o, order⟩ := exists_compare? number u.finite_threshold
    rw [Number.less, ← swap_compare?, order]
    rw [Number.atMost, order] at above
    cases o with
    | lt => exact absurd rfl above
    | eq => exact absurd rfl above
    | gt => rfl
  · rw [t.lt_iff, not_lt]
    have mem := h.mem_iff.mpr hu
    rw [whole] at mem
    rcases List.mem_append.mp mem with mem | mem
    · exact (List.pairwise_append.mp (whole ▸ h.ordered)).2.2 u mem t (by simp)
    · obtain rfl := List.mem_singleton.mp mem
      exact le_rfl
  · rw [← List.head?_filter, List.filter_reverse, List.head?_reverse, ListedTier.filter_beq,
      ← h.stable, whole, List.filter_append]
    simp

end

/-- The tiers in order are sorted stably. -/
theorem exists_ordered (listed : List ListedTier) :
    ∃ sorted, Tier.ordered (listed.map ListedTier.tier) = sorted.map ListedTier.tier ∧
      Sorts ListedTier.rank sorted listed := by
  have agrees (a b : Tier) (ha : ∃ t : ListedTier, t.tier = a) (hb : ∃ t : ListedTier, t.tier = b) :
      (pure (a.threshold.less b.threshold) : Id Bool) = pure (decide (a.rank < b.rank)) := by
    obtain ⟨t, rfl⟩ := ha
    obtain ⟨u, rfl⟩ := hb
    have order : t.tier.threshold.less u.tier.threshold =
        (Number.compareFloats t.threshold u.threshold == some .lt) := rfl
    refine congrArg pure ?_
    rw [order, compareFloats_eq t.finite_threshold u.finite_threshold, Bool.eq_iff_iff, beq_iff_eq,
      Option.some_inj, compare_lt_iff_lt, decide_eq_true_eq]
    rfl
  have tiers : ∀ a ∈ listed.map ListedTier.tier, ∃ t : ListedTier, t.tier = a := fun a ha =>
    (List.mem_map.mp ha).imp fun _ h => h.2
  obtain ⟨sorted', run, sorts'⟩ := sorts_sortBy agrees tiers
  obtain ⟨sorted, -, sorts⟩ : ∃ sorted,
      sortBy (m := Id) (fun t u => pure (decide (t.rank < u.rank))) listed = pure sorted ∧
        Sorts ListedTier.rank sorted listed :=
    sorts_sortBy (P := fun _ => True) (fun _ _ _ _ => rfl) fun _ _ => trivial
  refine ⟨sorted, ?_, sorts⟩
  have image : Sorts Tier.rank (sorted.map ListedTier.tier) (listed.map ListedTier.tier) :=
    Sorts.map (f := ListedTier.tier) sorts
  rw [← sorts'.unique image]
  exact congrArg Id.run run

/-! ## 5. Tiered rates -/

/-- The call of a tiered rate. -/
def tieredRateText (value : Text) (listed : List ListedTier) : Text :=
  "TARIFAESCALONADA(".toList ++ Text.join ";".toList (value :: listed.map ListedTier.text) ++ [')']

theorem tieredRateText_eq (value : Text) (listed : List ListedTier) :
    tieredRateText value listed = Shorthand.tieredRate.callText
      (Text.join ";".toList (value :: listed.map ListedTier.text)) := by
  have name : "TARIFAESCALONADA(".toList = Shorthand.tieredRate.name.toList ++ ['('] := rfl
  unfold tieredRateText
  generalize Text.join ";".toList (value :: listed.map ListedTier.text) = body
  rw [name, List.append_assoc, List.append_assoc]
  rfl

/-- The tariff of the highest tier. -/
def highestTariff (sorted : List ListedTier) : Float :=
  (sorted.getLast?.map ListedTier.tariff).getD 0

theorem isFinite_highestTariff (sorted : List ListedTier) :
    (highestTariff sorted).isFinite = true := by
  unfold highestTariff
  cases sorted.getLast? with
  | none => rfl
  | some t => exact t.finite_tariff

/-- The text that a tiered rate is spelled as, from its tiers in order. -/
def chainText (value : Text) (sorted : List ListedTier) : Text :=
  choicesOf value (numberText (highestTariff sorted)) (sorted.map ListedTier.tier)

theorem plain_chainText {value : Text} (plain : '"' ∉ value) (sorted : List ListedTier) :
    '"' ∉ chainText value sorted := by
  have number {x : Float} (finite : x.isFinite = true) : '"' ∉ numberText x := fun quote => by
    rcases mem_numberText finite quote with digit | other
    · exact absurd digit (by decide)
    · exact absurd other (by decide)
  have last := number (isFinite_highestTariff sorted)
  unfold chainText
  generalize highestTariff sorted = otherwise at last
  induction sorted with
  | nil => exact last
  | cons t ts ih =>
    rw [List.map_cons, choicesOf_cons]
    have threshold : '"' ∉ t.tier.threshold.text := number t.finite_threshold
    have tariff : '"' ∉ t.tier.tariff.text := number t.finite_tariff
    simp [plain, threshold, tariff, ih]

/-- The form that a tiered rate is spelled as. -/
def Form.tieredRate (amount : Form) (sorted : List ListedTier) : Form :=
  amount.tiers (highestTariff sorted) sorted

section

variable {w : Surroundings} {value : Text} {amount : Form} {listed sorted : List ListedTier}

/-- The arguments of a tiered rate are spelled as the chain of its tiers in order. -/
theorem spellTieredRate_eq {most : Int} (something : value ≠ []) (nonempty : listed ≠ [])
    (few : (listed.length : Int) ≤ most) (sorts : Sorts ListedTier.rank sorted listed)
    (ordered : Tier.ordered (listed.map ListedTier.tier) = sorted.map ListedTier.tier) :
    Shorthand.spellTieredRate most (value :: listed.map fun t => t.text.strip) =
      some (chainText value sorted) := by
  have read (ts : List ListedTier) :
      (ts.map fun t => t.text.strip).mapM Tier.read? = some (ts.map ListedTier.tier) := by
    induction ts with
    | nil => rfl
    | cons t ts ih =>
      rw [List.map_cons, List.mapM_cons, t.reads, ih]
      rfl
  have some : sorted ≠ [] := fun none => by
    obtain ⟨t, ts, rfl⟩ := List.exists_cons_of_ne_nil nonempty
    have := sorts.mem_iff.mpr (.head ts)
    rw [none] at this
    cases this
  have guard : ((listed.map fun t => t.text.strip).isEmpty || value.isEmpty ||
      decide (most < (listed.map fun t => t.text.strip).length)) = false := by
    simp [nonempty, something, few]
  rw [Shorthand.spellTieredRate, guard, read]
  simp only [Bool.false_eq_true, if_false, tierChain, ordered, List.getLast?_map,
    List.getLast?_eq_some_getLast some, chainText, highestTariff]
  rfl

/-- Tiers behind semicolons. -/
theorem join_eq_append (value : Text) (nonempty : listed ≠ []) :
    Text.join ";".toList (value :: listed.map ListedTier.text) =
      value ++ ';' :: Text.join ";".toList (listed.map ListedTier.text) := by
  obtain ⟨t, ts, rfl⟩ := List.exists_cons_of_ne_nil nonempty
  simp [Text.join]

theorem ListedTier.grouped {p : Char → Prop} (all : ∀ c, c ≠ ';' → p c) (t : ListedTier) :
    Grouped p t.text :=
  .of_forall fun c hc => by
    refine ⟨all c ?_, ?_, ?_⟩ <;>
      · rintro rfl
        exact t.not_mem_text _ (by decide) hc

theorem not_mem_join_text : '(' ∉ Text.join ";".toList (listed.map ListedTier.text) := by
  induction listed with
  | nil => nofun
  | cons t ts ih =>
    have first := t.not_mem_text '(' (by decide)
    cases ts with
    | nil => exact first
    | cons u us =>
      rw [List.map_cons, join_eq_append t.text (List.cons_ne_nil u us)]
      simpa [first] using ih

/-- What the call of a tiered rate is spelled out as. -/
theorem expand_tieredRateText (asked : Option Int) (wf : amount.WellFormed)
    (h : Lexes value amount.lexemes) (plain : '"' ∉ value)
    (free : ∀ call ∈ amount.expr.calls, ∀ k : Shorthand, ¬k.Names call.1) (nonempty : listed ≠ [])
    (few : (listed.length : Int) ≤ w.settings.maxFunctionArguments) (passes : 0 < passLimit w asked)
    (sorts : Sorts ListedTier.rank sorted listed)
    (ordered : Tier.ordered (listed.map ListedTier.tier) = sorted.map ListedTier.tier) :
    expand w asked (.text (tieredRateText value listed)) =
      if w.settings.maxExpandedLength < (chainText value.strip sorted).length then
        .error (.formula (.expansionTooLong (chainText value.strip sorted).length
          w.settings.maxExpandedLength))
      else .ok (.text (chainText value.strip sorted)) := by
  have plain' : '"' ∉ value.strip := fun quote => plain (mem_of_mem_strip quote)
  have lexes : Lexes (chainText value.strip sorted) (amount.tieredRate sorted).lexemes :=
    amount.lexes_tiers _ h.strip (isFinite_highestTariff sorted) sorted
  have free' : ∀ call ∈ (amount.tieredRate sorted).expr.calls, ∀ k : Shorthand, ¬k.Names call.1 :=
    fun call mem => free call (amount.calls_tiers _ sorted call mem)
  have quiet (k : Shorthand) : Quiet (headNamed k.name.toList) none (chainText value.strip sorted) [] :=
    quiet_of_free lexes (plain_chainText plain' sorted) free' k .nil none
  have something : value.strip ≠ [] := fun empty =>
    absurd (empty ▸ h.strip).eq_nil amount.phrase.ne_nil
  have whole := join_eq_append value nonempty
  have parts : ∀ x ∈ value :: listed.map ListedTier.text, Grouped (· ≠ ';') x :=
    List.forall_mem_cons.mpr ⟨(amount.grouped wf h plain).semicolon, fun x hx => by
      obtain ⟨t, -, rfl⟩ := List.mem_map.mp hx
      exact t.grouped fun _ other => other⟩
  have grouped := grouped_join fun x hx => (parts x hx).mono fun _ _ => trivial
  have others : ∀ k ≠ Shorthand.tieredRate, Quiet (headNamed k.name.toList) (some '(')
      (Text.join ";".toList (value :: listed.map ListedTier.text)) [')'] := fun k _ => by
    rw [whole]
    refine quiet_append.mpr ⟨quiet_of_free h plain free k (.cons (by decide) (by decide) (by decide) _)
      _, quiet_of_no_paren ?_⟩
    simpa using not_mem_join_text
  have spells : Shorthand.spellTieredRate w.settings.maxFunctionArguments
      (semicolonArguments (Text.join ";".toList (value :: listed.map ListedTier.text))) =
        some (chainText value.strip sorted) := by
    rw [semicolonArguments_join (List.cons_ne_nil _ _) parts, List.map_cons, List.map_map]
    exact spellTieredRate_eq something nonempty few sorts ordered
  rw [tieredRateText_eq]
  have calls (t : Text) : Shorthand.tieredRate.spellOut w t = .ok (Shorthand.spellAll
      (spellableCalls Shorthand.tieredRate.name.toList
        (Shorthand.spellTieredRate w.settings.maxFunctionArguments)) t) := rfl
  exact expand_callText calls grouped others spells quiet passes

end

/-- **A tiered rate charges the tier that applies.**  It is spelled out unless that makes the formula
too long, and what it is spelled as evaluates to the tariff of the tier that applies to the value.  It
is spelled alike however the tiers are listed, as long as those of one threshold keep their order. -/
theorem eval_expand_tieredRate {w : Surroundings} {asked : Option Int} {value : Text} {amount : Expr}
    {listed : List ListedTier} (read : parsed value = .ok amount) (plain : '"' ∉ value)
    (free : ∀ call ∈ amount.calls, ∀ k : Shorthand, ¬k.Names call.1) (nonempty : listed ≠ [])
    (few : (listed.length : Int) ≤ w.settings.maxFunctionArguments)
    (passes : 0 < passLimit w asked) :
    ∃ out chain, expand w asked (.text (tieredRateText value listed)) =
        (if w.settings.maxExpandedLength < out.length then
          .error (.formula (.expansionTooLong out.length w.settings.maxExpandedLength))
        else .ok (.text out)) ∧
      parsed out = .ok chain ∧
      (∀ (bindings : Bindings) (v : Value) (x : Number), amount.eval bindings = .ok v →
        v.number? = some x → (∀ y, x = .float y → y.isNaN = false) →
        ∃ t y, Applies x listed t ∧ chain.eval bindings = .ok (.float y) ∧
          (y == t.tariff) = true) ∧
      ∀ listed' : List ListedTier, listed'.Perm listed →
        (∀ t ∈ listed, listed'.filter (·.threshold == t.threshold) =
          listed.filter (·.threshold == t.threshold)) →
        expand w asked (.text (tieredRateText value listed')) =
          expand w asked (.text (tieredRateText value listed)) := by
  obtain ⟨f, wf, rfl, h⟩ := parsed_eq_ok_iff.mp read
  obtain ⟨sorted, ordered, sorts⟩ := exists_ordered listed
  have finite := isFinite_highestTariff sorted
  have run := expand_tieredRateText asked wf h plain free nonempty few passes sorts ordered
  refine ⟨_, (f.tieredRate sorted).expr, run, ?_, fun bindings v x value number exact => ?_,
    fun listed' perm same => ?_⟩
  · exact parsed_eq_ok_iff.mpr ⟨f.tieredRate sorted, f.wellFormed_tiers _ wf sorted, rfl,
      f.lexes_tiers _ h.strip finite sorted⟩
  · have result : (f.tieredRate sorted).expr.eval bindings = .ok (.float (readBack
        (((sorted.find? fun t => x.atMost t.threshold).map ListedTier.tariff).getD
          (highestTariff sorted)))) := f.eval_tiers value number _ sorted
    cases found : sorted.find? fun t => x.atMost t.threshold with
    | some t =>
      rw [found] at result
      exact ⟨t, _, applies_of_covers sorts found, result, readBack_beq t.finite_tariff⟩
    | none =>
      obtain ⟨u, mem⟩ := List.exists_mem_of_ne_nil listed nonempty
      have filled : sorted ≠ [] := List.ne_nil_of_mem (sorts.mem_iff.mpr mem)
      obtain ⟨t, last⟩ : ∃ t, sorted.getLast? = some t := ⟨_, List.getLast?_eq_some_getLast filled⟩
      have highest : highestTariff sorted = t.tariff := by rw [highestTariff, last]; rfl
      rw [found, Option.map_none, Option.getD_none, highest] at result
      exact ⟨t, _, applies_of_none sorts exact found last, result, readBack_beq t.finite_tariff⟩
  · have sorts : Sorts ListedTier.rank sorted listed' := sorts.of_filter perm fun t mem => by
      rw [← ListedTier.filter_beq, ← ListedTier.filter_beq, same t mem]
    obtain ⟨sorted', ordered', sorts'⟩ := exists_ordered listed'
    obtain rfl := sorts.unique sorts'
    have nonempty' : listed' ≠ [] := fun empty => nonempty (List.nil_perm.mp (empty ▸ perm))
    rw [run, expand_tieredRateText asked wf h plain free nonempty' (perm.length_eq ▸ few) passes sorts
      ordered']

set_option maxRecDepth 20000 in
/-- For instance at the threshold of the second tier in order, which is listed first. -/
theorem eval_expand_tieredRate_of_two :
    ∃ chain y, expand .bare none (.text "TARIFAESCALONADA(X; 2:20; 1,5:-1)".toList) =
        .ok (.text "((X) <= 1.5 ? -1 : ((X) <= 2 ? 20 : 20))".toList) ∧
      parsed "((X) <= 1.5 ? -1 : ((X) <= 2 ? 20 : 20))".toList = .ok chain ∧
      chain.eval [(['X'], .int 2)] = .ok (.float y) ∧ (y == 20) = true := by
  let a : ListedTier := ⟨" 2:20".toList, 2, 20, by decide +kernel, by decide +kernel,
    by decide +kernel⟩
  let b : ListedTier := ⟨" 1,5:-1".toList, 1.5, -1, by decide +kernel, by decide +kernel,
    by decide +kernel⟩
  have read : parsed "X".toList = .ok (.name ['X']) := by cbv
  have run : expand .bare none (.text "TARIFAESCALONADA(X; 2:20; 1,5:-1)".toList) =
      .ok (.text "((X) <= 1.5 ? -1 : ((X) <= 2 ? 20 : 20))".toList) := by rfl
  obtain ⟨out, chain, same, parse, result, -⟩ := @eval_expand_tieredRate .bare none "X".toList _
    [a, b] read (by decide) (fun _ mem => absurd mem List.not_mem_nil) (List.cons_ne_nil _ _)
    (by decide) (by decide)
  obtain rfl : "((X) <= 1.5 ? -1 : ((X) <= 2 ? 20 : 20))".toList = out := by
    have := run.symm.trans same
    split at this
    · cases this
    · simpa using this
  obtain ⟨t, y, applies, value, equal⟩ := result [(['X'], .int 2)] (.int 2) (.int 2) rfl rfl
    (by simp)
  refine ⟨chain, y, run, parse, value, ?_⟩
  cases applies with
  | within covers _ first =>
    rcases List.mem_pair.mp (List.mem_of_find?_eq_some first) with rfl | rfl
    · exact equal
    · exact absurd covers (by decide +kernel)
  | beyond above => exact absurd (above a (by simp)) (by decide +kernel)

end Haulage
