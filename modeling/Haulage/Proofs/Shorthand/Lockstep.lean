/-
# Two formulas spelled out in step

A formula is spelled out by searches, one for each shorthand, and pass after pass.  In two texts that
are the same but for some digits, each search finds the same calls, and what it puts there is a
content (`InStep`).  So a search rewrites the twin (`InStep.exists_rewrites`), a pass goes on with a
twin that is literal again, and the two texts are of one length after every pass.

Hence **two formulas side by side are spelled out in step** (`expandWithin_inStep`) where the settings
are the same and the facts of the calendar have as many digits: either both come out as a twin, or
both grow too long in the same pass and to the same length.
-/
import Haulage.Proofs.Shorthand.Content

namespace Haulage

open Twin (Content IsCall Literal Loose left right strip)

variable {before before' : Option Char} {c : Cell} {z : Twin} {name : Text}

/-! ## 1. Arguments of a call -/

namespace Twin

theorem Lists.grouped_body {b : Twin} {xs : List Twin} (h : Lists b xs) :
    Grouped (fun _ => True) (left b) := by
  induction h with
  | last grouped => exact grouped.mono fun _ _ => trivial
  | more grouped semicolon _ ih =>
    rw [left_append, left_cons, semicolon]
    exact (grouped.mono fun _ _ => trivial).append (.plain trivial (by decide) (by decide) ih)

/-- **The arguments are loose** where the figures of the calls in them are literal. -/
theorem Lists.loose {b rest : Twin} {xs : List Twin} (h : Lists b xs)
    (outside : inWord before = false) (alike : Alike b) (literal : Literal before b rest) :
    ∀ x ∈ xs, Loose (strip x) := by
  have one {before : Option Char} {x rest : Twin} (outside : inWord before = false)
      (alike : Alike x) (grouped : Grouped (· ≠ ';') (left x)) (literal : Literal before x rest) :
      Loose (strip x) := by
    obtain ⟨f, g, whole, blank, -⟩ := exists_of_strip x
    rw [whole, literal_append, literal_append] at literal
    exact ⟨alike_strip alike, grouped_strip grouped, fun _ _ => literal.2.1.move
      ((wordless_of_blanks blank).inWord_lastOr outside) (grouped_strip grouped) _⟩
  induction h generalizing before with
  | last grouped => exact List.forall_mem_singleton.mpr (one outside alike grouped literal)
  | more grouped semicolon _ ih =>
    rw [alike_append, alike_cons] at alike
    rw [literal_append] at literal
    refine List.forall_mem_cons.mpr ⟨one outside alike.1 grouped literal.1,
      ih ?_ alike.2.2 literal.2.2⟩
    rw [semicolon]
    decide

theorem Lists.subset {b : Twin} {xs : List Twin} (h : Lists b xs) : ∀ x ∈ xs, ∀ c ∈ x, c ∈ b := by
  induction h with
  | last => exact List.forall_mem_singleton.mpr fun _ => id
  | more _ _ _ ih =>
    refine List.forall_mem_cons.mpr ⟨fun c mem => by simp [mem], fun x there c mem => ?_⟩
    simp [ih x there c mem]

theorem Settled.eq_of_grouped {p : Char → Prop} {b rest : Twin} (settled : Settled (b ++ rest))
    (grouped : Grouped p (left b)) : ∀ c ∈ b, c.2 = c.1 := by
  induction b with
  | nil => exact List.forall_mem_nil _
  | cons c b ih =>
    obtain ⟨notClose, more⟩ := Grouped.uncons (c := c.1) grouped
    obtain ⟨notOpen, equal, settled⟩ := settled.resolve_left notClose
    exact List.forall_mem_cons.mpr ⟨equal, ih settled (more notOpen)⟩

theorem right_eq_left_of_forall {x : Twin} (equal : ∀ c ∈ x, c.2 = c.1) : right x = left x :=
  List.map_congr_left equal

/-- **Settled figures are the same** on either side. -/
theorem Lists.right_figure {b r : Twin} {q : Cell} {xs : List Twin} (h : Lists b xs)
    (settled : FiguresSettled 0 (b ++ q :: r)) :
    ∀ x ∈ (xs.map strip).tail, right x = left x := by
  cases h with
  | last => exact List.forall_mem_nil _
  | @more x b d xs grouped semicolon others =>
    rw [List.append_assoc, figuresSettled_append grouped fun _ _ => id] at settled
    have settled : Settled (b ++ q :: r) := by simpa [FiguresSettled, semicolon] using settled
    have equal := settled.eq_of_grouped others.grouped_body
    intro y mem
    obtain ⟨x', listed, rfl⟩ := List.mem_map.mp mem
    obtain ⟨f, g, whole, -, -⟩ := exists_of_strip x'
    refine right_eq_left_of_forall fun c there => equal c (others.subset x' listed c ?_)
    rw [whole]
    simp [there]

/-- **The arguments of a call** are side by side and loose, and its figures are the same if they are
settled. -/
theorem exists_arguments {b r : Twin} {q : Cell} (outside : inWord before = false)
    (grouped : Grouped (fun _ => True) (left b)) (alike : Alike b)
    (literal : Literal before b (q :: r)) :
    ∃ xs : List Twin, semicolonArguments (left b) = xs.map left ∧
      semicolonArguments (right b) = xs.map right ∧ (∀ x ∈ xs, Loose x) ∧
      (FiguresSettled 0 (b ++ q :: r) → ∀ x ∈ xs.tail, right x = left x) := by
  obtain ⟨x, xs, lists⟩ := exists_lists grouped
  obtain ⟨arguments, arguments'⟩ := lists.semicolonArguments alike
  exact ⟨(x :: xs).map strip, arguments, arguments',
    List.forall_mem_map.mpr (lists.loose outside alike literal), lists.right_figure⟩

theorem inWord_lastOr_right {x : Twin} (alike : Alike x) (same : inWord before' = inWord before) :
    inWord (lastOr before' (right x)) = inWord (lastOr before (left x)) := by
  induction x generalizing before before' with
  | nil => exact same
  | cons c x ih =>
    obtain ⟨first, others⟩ := alike_cons.mp alike
    rw [right_cons, left_cons, lastOr_cons, lastOr_cons]
    exact ih others (digitBlind_isNameChar.eq first)

end Twin

/-! ## 2. Searches in step -/

/-- The two finders find the same calls in two texts side by side, and put a content there. -/
def InStep (find find' : Finder Text) : Prop :=
  ∀ before before' c z, inWord before' = inWord before → Twin.Alike (c :: z) →
    Literal before (c :: z) [] →
    find before c.1 (left z) = none ∧ find' before' c.2 (right z) = none ∨
    ∃ x y w, z = x ++ w ∧ IsCall (c :: x) ∧ Content y ∧
      find before c.1 (left z) = some ⟨x.length, left y⟩ ∧
      find' before' c.2 (right z) = some ⟨x.length, right y⟩

/-- The text that a search puts together, and the number of finds. -/
def Finder.outcome (find : Finder Text) (before : Option Char) (s : Text) : Text × Nat :=
  let pieces := find.piecesFrom before 0 s
  (pieces.flatMap Piece.text, (pieces.filterMap Piece.content?).length)

theorem Finder.outcome_of_none {find : Finder Text} {c : Char} {s : Text}
    (h : find before c s = none) :
    find.outcome before (c :: s) = (c :: (find.outcome (some c) s).1, (find.outcome (some c) s).2) := by
  rw [outcome, Finder.piecesFrom, h]
  rfl

theorem Finder.outcome_of_found {find : Finder Text} {c : Char} {x rest content : Text}
    (h : find before c (x ++ rest) = some ⟨x.length, content⟩) :
    find.outcome before (c :: (x ++ rest)) =
      (content ++ (find.outcome (lastOr before (c :: x)) rest).1,
        (find.outcome (lastOr before (c :: x)) rest).2 + 1) := by
  rw [outcome, ← List.cons_append, Finder.piecesFrom_of_found h]
  simp [outcome, Piece.text, Piece.content?]

/-- A find at the front is what the text begins with afterwards. -/
theorem Finder.exists_outcome_of_found {find : Finder Text} {before : Option Char} {c : Char}
    {t : Text} {f : Find Text} (h : find before c t = some f) :
    ∃ rest, (find.outcome before (c :: t)).1 = f.content ++ rest := by
  rw [outcome, piecesFrom, h]
  exact ⟨_, rfl⟩

theorem Finder.outcome_append_of_quiet {find : Finder Text} {x rest : Text}
    (h : Quiet find before x rest) : find.outcome before (x ++ rest) =
      (x ++ (find.outcome (lastOr before x) rest).1, (find.outcome (lastOr before x) rest).2) := by
  rw [outcome, piecesFrom_append_of_quiet h]
  simp only [List.flatMap_append, List.filterMap_append, flatMap_text_map_kept,
    filterMap_content?_map_kept, List.nil_append]
  rfl

/-- A search finds nothing where it is quiet, and everything stays. -/
theorem Finder.outcome_of_quiet {find : Finder Text} {s : Text} (quiet : Quiet find before s []) :
    find.outcome before s = (s, 0) := by
  have whole := outcome_append_of_quiet quiet
  rw [List.append_nil] at whole
  rw [whole]
  simp [outcome, piecesFrom]

theorem Finder.quiet_of_outcome {find : Finder Text} {s : Text}
    (none : (find.outcome before s).2 = 0) : Quiet find before s [] := by
  rcases quiet_or_found find before s with quiet | ⟨u, c, cs, f, rfl, quiet, found⟩
  · exact quiet
  · rw [outcome_append_of_quiet quiet, outcome, piecesFrom, found] at none
    simp [Piece.content?] at none

/-- **A search in step rewrites the twin.** -/
theorem InStep.exists_rewrites {find find' : Finder Text} (h : InStep find find')
    (same : inWord before' = inWord before) (alike : Twin.Alike z) (literal : Literal before z []) :
    ∃ z' count, Twin.Rewrites z z' ∧ find.outcome before (left z) = (left z', count) ∧
      find'.outcome before' (right z) = (right z', count) := by
  induction size : z.length using Nat.strong_induction_on generalizing z before before' with
  | _ n ih =>
  subst size
  cases z with
  | nil => exact ⟨[], 0, .nil, rfl, rfl⟩
  | cons c z =>
    rcases h before before' c z same alike literal with
      ⟨first, second⟩ | ⟨x, y, w, rfl, call, content, first, second⟩
    · obtain ⟨c_alike, z_alike⟩ := Twin.alike_cons.mp alike
      have behind : inWord (some c.2) = inWord (some c.1) := digitBlind_isNameChar.eq c_alike
      obtain ⟨z', count, rewrites, outcome, outcome'⟩ :=
        ih z.length (Nat.lt_succ_self _) behind z_alike literal.2 rfl
      refine ⟨c :: z', count, .keep c rewrites, ?_, ?_⟩
      · rw [Twin.left_cons, Finder.outcome_of_none first, outcome, Twin.left_cons]
      · rw [Twin.right_cons, Finder.outcome_of_none second, outcome', Twin.right_cons]
    · rw [← List.cons_append, Twin.alike_append] at alike
      rw [← List.cons_append, Twin.literal_append] at literal
      rw [Twin.left_append, ← Twin.length_left] at first
      rw [Twin.right_append, ← Twin.length_right] at second
      obtain ⟨z', count, rewrites, outcome, outcome'⟩ := ih w.length (by simp)
        (Twin.inWord_lastOr_right alike.1 same) alike.2 literal.2 rfl
      refine ⟨y ++ z', count + 1, ?_, ?_, ?_⟩
      · rw [← List.cons_append]
        exact .swap call content rewrites
      · rw [Twin.left_cons, Twin.left_append, Finder.outcome_of_found first, ← Twin.left_cons,
          outcome, Twin.left_append]
      · rw [Twin.right_cons, Twin.right_append, Finder.outcome_of_found second, ← Twin.right_cons,
          outcome', Twin.right_append]

/-! ## 3. The searches for calls -/

/-- A call from its front to the parenthesis that closes it. -/
theorem exists_call (sn : ShorthandName name) {word : Text} {front b r : Twin} {p q : Cell}
    (isFront : IsFront name word (left front)) (cut : c :: z = front ++ p :: (b ++ q :: r))
    (opens : p.1 = '(') (closes : q.1 = ')') (grouped : Grouped (fun _ => True) (left b)) :
    ∃ x, z = x ++ r ∧ IsCall (c :: x) ∧ front.length + 1 + b.length = x.length := by
  have nonempty : front ≠ [] := fun empty => isFront.ne_nil sn.ne_nil (by rw [empty]; rfl)
  obtain ⟨d, front, rfl⟩ := List.exists_cons_of_ne_nil nonempty
  obtain ⟨rfl, rfl⟩ := List.cons.inj cut
  refine ⟨front ++ p :: (b ++ [q]), by simp,
    ⟨c :: front, p, b, q, rfl, isFront.plain sn, opens, closes, grouped⟩, ?_⟩
  simp
  omega

/-- **Calls are spelled out in step** by a rule that spells alike. -/
theorem inStep_spellableCalls (k : Shorthand) {spell : List Text → Option Text}
    (alike : k.SpellsAlike spell) :
    InStep (spellableCalls k.name.toList spell) (spellableCalls k.name.toList spell) := by
  intro before before' c z same twin literal
  have sn := k.shorthandName
  have heads := literal.1
  unfold spellableCalls
  rw [Twin.headNamed_right sn twin same]
  cases found : headNamed k.name.toList before c.1 (left z) with
  | none => exact .inl ⟨rfl, rfl⟩
  | some h =>
    obtain ⟨-, word, front, p, inside, cut, opens, isFront, rfl⟩ :=
      (Twin.headNamed_left_iff sn).mp found
    obtain ⟨behind, behindLeft, behindRight⟩ := Twin.drop_head cut
    have twin' := twin
    rw [cut, Twin.alike_append, Twin.alike_cons] at twin'
    dsimp only
    rw [behindLeft, behindRight]
    cases closed : bodyOf? 0 (left inside) with
    | none =>
      rw [Twin.bodyOf?_right_of_none twin'.2.2 closed]
      exact .inl ⟨rfl, rfl⟩
    | some body =>
      obtain ⟨b, q, r, rfl, rfl, closes, grouped, closed'⟩ := Twin.exists_body twin'.2.2 closed
      rw [closed']
      have inner : Literal (some p.1) b (q :: r) := by
        rw [cut, Twin.literal_append] at literal
        simpa using (Twin.literal_append.mp literal.2.2).1
      have outside : inWord (some p.1) = false := by
        rw [opens]
        decide
      obtain ⟨xs, arguments, arguments', loose, figures⟩ :=
        Twin.exists_arguments outside grouped (Twin.alike_append.mp twin'.2.2).1 inner
      have settled : k ∈ Shorthand.withFigures → Twin.FiguresSettled 0 (b ++ q :: r) := by
        intro withFigures
        have allows := heads k withFigures _ (by rwa [List.append_nil])
        rw [List.append_nil, behind] at allows
        exact allows (by rw [closed]; rfl)
      dsimp only
      rw [arguments, arguments']
      rcases alike xs loose (fun withFigures => figures (settled withFigures)) with
        ⟨none, none'⟩ | ⟨y, content, spelled, spelled'⟩
      · rw [none, none']
        exact .inl ⟨rfl, rfl⟩
      · rw [spelled, spelled']
        obtain ⟨x, rfl, call, size⟩ := exists_call sn isFront cut opens closes grouped
        refine .inr ⟨x, y, r, rfl, call, content, ?_, ?_⟩
        · rw [Option.map_some, ← size, Twin.length_left]
        · rw [Option.map_some, ← size, Twin.length_right]

/-- An empty call in the first text is one in the second. -/
theorem emptyCalls_right_of_left (sn : ShorthandName name) (same : inWord before' = inWord before)
    (alike : Twin.Alike (c :: z)) {f : Find Unit}
    (found : emptyCalls name before c.1 (left z) = some f) :
    emptyCalls name before' c.2 (right z) = some f ∧
      ∃ x w, z = x ++ w ∧ IsCall (c :: x) ∧ f.more = x.length := by
  obtain ⟨h, blanks, rest, head, inner, blank, rfl⟩ := emptyCalls_eq_some_iff.mp found
  obtain ⟨-, word, front, p, inside, cut, opens, isFront, rfl⟩ := (Twin.headNamed_left_iff sn).mp head
  obtain ⟨-, behindLeft, behindRight⟩ := Twin.drop_head cut
  obtain ⟨b, closing, rfl, rfl, closed⟩ :=
    Twin.exists_of_left_eq_append (behindLeft.symm.trans inner)
  obtain ⟨q, r, rfl, closes, rfl⟩ := Twin.exists_of_left_eq_cons closed
  have alike' := alike
  rw [cut, Twin.alike_append, Twin.alike_cons, Twin.alike_append, Twin.alike_cons] at alike'
  obtain ⟨-, -, ab, aq, -⟩ := alike'
  have blanks : right b = left b := ab.right_eq_left fun d mem => isDigit_of_isBlank (blank d mem)
  have paren : q.2 = ')' := (aq.eq_of_not_isDigit (by rw [closes]; decide)).trans closes
  constructor
  · refine emptyCalls_eq_some_iff.mpr ⟨_, left b, right r, ?_, ?_, blank, rfl⟩
    · rw [Twin.headNamed_right sn alike same, head]
    · rw [behindRight, Twin.right_append, Twin.right_cons, blanks, paren]
  · obtain ⟨x, rfl, call, size⟩ := exists_call sn isFront cut opens closes
      (.of_forall fun d mem => ⟨trivial, plain_of_blanks blank d mem⟩)
    exact ⟨x, r, rfl, call, by rw [← size, Twin.length_left]⟩

/-- **Facts of the calendar are filled in in step** where they have as many digits. -/
theorem inStep_emptyCalls (sn : ShorthandName name) {y : Twin} (content : Content y) :
    InStep (fun before c cs => (emptyCalls name before c cs).map fun f => ⟨f.more, left y⟩)
      (fun before c cs => (emptyCalls name before c cs).map fun f => ⟨f.more, right y⟩) := by
  intro before before' c z same alike _
  dsimp only
  cases found : emptyCalls name before c.1 (left z) with
  | some f =>
    obtain ⟨found', x, w, rfl, call, size⟩ := emptyCalls_right_of_left sn same alike found
    rw [found']
    exact .inr ⟨x, y, w, rfl, call, content, by simp [size], by simp [size]⟩
  | none =>
    refine .inl ⟨rfl, Option.map_eq_none_iff.mpr ?_⟩
    refine Twin.right_eq_none (fun c z f alike found' => ?_) alike found
    rw [(emptyCalls_right_of_left sn same.symm alike found').1]
    exact Option.some_ne_none f

/-! ## 4. Passes in step -/

/-- Are the facts known, and written with as many digits? -/
def AsWide (fact fact' : Except ValueFault Int) : Prop :=
  ∃ n n' y, fact = .ok n ∧ fact' = .ok n' ∧ Content y ∧
    integerDigitsText n = .ok (left y) ∧ integerDigitsText n' = .ok (right y)

/-- The same settings, and facts of the calendar that are written with as many digits. -/
structure Surroundings.InStep (w w' : Surroundings) : Prop where
  settings : w'.settings = w.settings
  weekday : AsWide (w.context.weekday w.clock) (w'.context.weekday w'.clock)
  month : AsWide (w.context.month w.clock) (w'.context.month w'.clock)
  quarter : AsWide (w.context.quarter w.clock) (w'.context.quarter w'.clock)
  weekend : AsWide (w.context.weekend w.clock) (w'.context.weekend w'.clock)

/-- Both texts are spelled out, as a twin with literal figures, and as many calls are. -/
def SpelledInStep (a b : Except ValueFault SpelledOut) : Prop :=
  ∃ z count, a = .ok ⟨left z, count⟩ ∧ b = .ok ⟨right z, count⟩ ∧ Twin.Alike z ∧ Literal none z []

namespace Shorthand

theorem spellAll_eq_outcome (find : Finder Text) (s : Text) :
    spellAll find s = ⟨(find.outcome none s).1, (find.outcome none s).2⟩ := rfl

/-- A fact is put in as many places as there are empty calls. -/
theorem occurs_eq_false_iff {α : Type} (find : Finder α) (digits s : Text) : find.occurs s = false ↔
    (spellAll (fun before c cs => (find before c cs).map fun f => ⟨f.more, digits⟩) s).count = 0 := by
  rw [spellAll, Finder.occurs, Finder.pieces, Finder.pieces, List.length_eq_zero_iff]
  generalize (none : Option Char) = before
  generalize 0 = skip
  induction s generalizing before skip with
  | nil => simp [Finder.piecesFrom]
  | cons c cs ih =>
    cases skip with
    | succ skip => exact ih (some c) skip
    | zero =>
      simp only [Finder.piecesFrom]
      cases find before c cs with
      | none => simpa [Piece.content?] using ih (some c) 0
      | some f => simp [Piece.content?]

/-- Whether there are empty calls or not, a known fact is put in their place. -/
theorem fillIn_eq {name : String} {fact : Except ValueFault Int} {n : Int} {digits : Text}
    (known : fact = .ok n) (written : integerDigitsText n = .ok digits) (s : Text) :
    fillIn name fact s = .ok (spellAll
      (fun before c cs => (emptyCalls name.toList before c cs).map fun f => ⟨f.more, digits⟩) s) := by
  unfold fillIn
  dsimp only
  split
  · simp only [known, written, bind, Except.bind]
  · rename_i nothing
    have none := (occurs_eq_false_iff _ digits s).mp (Bool.eq_false_iff.mpr nothing)
    rw [spellAll_eq_outcome, Finder.outcome_of_quiet (Finder.quiet_of_outcome none)]

/-- What two searches in step find is spelled out in step. -/
theorem spellAll_inStep {find find' : Finder Text} (step : InStep find find')
    (alike : Twin.Alike z) (literal : Literal none z []) :
    SpelledInStep (.ok (spellAll find (left z))) (.ok (spellAll find' (right z))) := by
  obtain ⟨z', count, rewrites, outcome, outcome'⟩ :=
    step.exists_rewrites (rfl : inWord none = inWord none) alike literal
  refine ⟨z', count, ?_, ?_, rewrites.alike alike, rewrites.literal id literal⟩
  · rw [spellAll_eq_outcome, outcome]
  · rw [spellAll_eq_outcome, outcome']

theorem fillIn_inStep (k : Shorthand) {fact fact' : Except ValueFault Int} (wide : AsWide fact fact')
    (alike : Twin.Alike z) (literal : Literal none z []) :
    SpelledInStep (fillIn k.name fact (left z)) (fillIn k.name fact' (right z)) := by
  obtain ⟨n, n', y, known, known', content, written, written'⟩ := wide
  rw [fillIn_eq known written, fillIn_eq known' written']
  exact spellAll_inStep (inStep_emptyCalls k.shorthandName content) alike literal

/-- **A shorthand is spelled out in step**, and the figures stay literal. -/
theorem spellOut_inStep {w w' : Surroundings} (h : w.InStep w') (k : Shorthand)
    (alike : Twin.Alike z) (literal : Literal none z []) :
    SpelledInStep (k.spellOut w (left z)) (k.spellOut w' (right z)) := by
  have calls {k : Shorthand} {spell : List Text → Option Text} (spells : k.SpellsAlike spell) :=
    spellAll_inStep (inStep_spellableCalls k spells) alike literal
  cases k with
  | conditional => exact calls spellsAlike_conditional
  | rounding => exact calls spellsAlike_rounding
  | average =>
    unfold spellOut
    rw [h.settings]
    exact calls (spellsAlike_average _)
  | weekday => exact fillIn_inStep _ h.weekday alike literal
  | month => exact fillIn_inStep _ h.month alike literal
  | quarter => exact fillIn_inStep _ h.quarter alike literal
  | weekend => exact fillIn_inStep _ h.weekend alike literal
  | tieredRate =>
    unfold spellOut
    rw [h.settings]
    exact calls (spellsAlike_tieredRate _)

end Shorthand

section Passes

variable {w w' : Surroundings}

/-- **A pass in step.** -/
theorem expandOnce_inStep (h : w.InStep w') (alike : Twin.Alike z) (literal : Literal none z []) :
    SpelledInStep (expandOnce w (left z)) (expandOnce w' (right z)) := by
  unfold expandOnce
  generalize 0 = count
  induction Shorthand.all generalizing z count with
  | nil => exact ⟨z, count, rfl, rfl, alike, literal⟩
  | cons k ks ih =>
    obtain ⟨z', more, spelled, spelled', alike', literal'⟩ :=
      Shorthand.spellOut_inStep h k alike literal
    simpa only [List.foldlM_cons, bind, Except.bind, spelled, spelled'] using
      ih alike' literal' (count + more)

/-- Does the fault say that a formula has grown beyond the limit of the settings? -/
def Overgrown (settings : Settings) (f : Fault) : Prop := ∃ n : Nat, settings.maxExpandedLength < n ∧
  f = .formula (.expansionTooLong n settings.maxExpandedLength)

/-- **Passes in step**: two texts side by side, or the same excess of length. -/
theorem expandWithin_inStep (h : w.InStep w') (passes : Nat) (alike : Twin.Alike z)
    (literal : Literal none z []) :
    (∃ z', expandWithin w passes (left z) = .ok (left z') ∧
      expandWithin w' passes (right z) = .ok (right z')) ∨
    ∃ f, Overgrown w.settings f ∧ expandWithin w passes (left z) = .error f ∧
      expandWithin w' passes (right z) = .error f := by
  induction passes generalizing z with
  | zero => exact .inl ⟨z, rfl, rfl⟩
  | succ passes ih =>
    obtain ⟨z', count, once, once', alike', literal'⟩ := expandOnce_inStep h alike literal
    rw [expandWithin, expandWithin, once, once', h.settings]
    dsimp only
    rw [Twin.length_left, Twin.length_right]
    split
    · rename_i long
      exact .inr ⟨_, ⟨_, long, rfl⟩, rfl, rfl⟩
    · split
      · exact .inl ⟨z', rfl, rfl⟩
      · exact ih alike' literal'

/-- **A formula with literal figures is spelled out in step**: on both sides, or on neither, with the
same excess of length. -/
theorem expand_inStep (h : w.InStep w') (asked : Option Int) {s : Text} (figures : FiguresLiteral s) :
    (∃ out out', expand w asked (.text s) = .ok (.text out) ∧
      expand w' asked (.text s) = .ok (.text out')) ∨
    ∃ f, Overgrown w.settings f ∧ expand w asked (.text s) = .error f ∧
      expand w' asked (.text s) = .error f := by
  by_cases empty : s = []
  · subst empty
    exact .inl ⟨[], [], rfl, rfl⟩
  · have limit : passLimit w' asked = passLimit w asked := by
      unfold passLimit
      rw [h.settings]
    rw [expand_text empty, expand_text empty, limit]
    have step := expandWithin_inStep h (passLimit w asked) (Twin.alike_same s)
      (Twin.literal_same figures)
    rw [Twin.left_same, Twin.right_same] at step
    rcases step with ⟨z', run, run'⟩ | ⟨f, long, run, run'⟩
    · rw [run, run']
      exact .inl ⟨_, _, rfl, rfl⟩
    · rw [run, run']
      exact .inr ⟨f, long, rfl, rfl⟩

end Passes

end Haulage
