/-
# Which texts may stand in a literal

Texts are `TakenAlike` if a formula does not tell them apart in a literal: in every formula, one
template says what a pass makes of it, whichever of the texts stands there.  Harmless texts are taken
alike, and nothing else is: a kind of texts that are taken alike, and that has the empty text and a
letter in it, has harmless texts only (`TakenAlike.harmless`).

So it cannot be helped that `Harmless` looks at calls and parentheses in the text, and there are two
formulas that bring either to light.  A literal by itself is left as it is, so nothing may be left to
spell out in it.  And with the literal as the condition of a conditional, the call is taken with this
condition, as it is with the letter, only if counting passes over the literal: otherwise the call is
not taken, or what is in front of a semicolon in the text is taken for the condition.
-/
import Haulage.Proofs.Shorthand.Quotation

namespace Haulage

open Template (fill place)
open Shorthand (spellConditional)

/-! ## 1. One template -/

namespace Template

/-- What a filling begins with does not depend on what is filled in. -/
theorem head?_fill (s : Text) (z : Template) : (fill s z).head? = z.head?.map (·.getD '"') := by
  rcases z with _ | ⟨_ | c, z⟩ <;> rfl

/-- A hole is no character: two different texts in it show that. -/
theorem fill_hole_ne {z z' : Template} {c : Char}
    (empty : fill [] (none :: z) = fill [] (some c :: z')) :
    fill ['0'] (none :: z) ≠ fill ['0'] (some c :: z') := by
  intro letter
  have first : '"' :: fill [] z = fill [] z' := (List.cons.inj empty).2
  have second : '0' :: '"' :: fill ['0'] z = fill ['0'] z' := (List.cons.inj letter).2
  have same : (fill [] z').head? = (fill ['0'] z').head? := by rw [head?_fill, head?_fill]
  rw [← first, ← second] at same
  exact absurd (Option.some.inj same) (by decide)

/-- **Two fillings determine the template.** -/
theorem eq_of_fill {z z' : Template} (empty : fill [] z = fill [] z')
    (letter : fill ['0'] z = fill ['0'] z') : z = z' := by
  induction z generalizing z' with
  | nil =>
    have none := isEmpty_fill [] z'
    rw [← empty] at none
    exact (List.isEmpty_iff.mp none.symm).symm
  | cons k z ih =>
    cases z' with
    | nil =>
      have none := isEmpty_fill [] (k :: z)
      rw [empty] at none
      cases none
    | cons k' z' =>
      cases k with
      | none =>
        cases k' with
        | none => rw [ih (List.append_cancel_left empty) (List.append_cancel_left letter)]
        | some c => exact absurd letter (fill_hole_ne empty)
      | some c =>
        cases k' with
        | none => exact absurd letter.symm (fill_hole_ne empty.symm)
        | some d =>
          obtain ⟨rfl, behind⟩ := List.cons.inj empty
          rw [ih behind (List.cons.inj letter).2]

end Template

/-- Does a quote behind the text open a literal: are the quotes in it paired, and none escaped? -/
structure OpensLiteral (x : Text) : Prop where
  paired : Even (x.count '"')
  plain : '\\' ∉ x

/-- What a pass makes of the formula with the text between two quotes. -/
def passOver (w : Surroundings) (x s y : Text) : Except ValueFault Text :=
  (expandOnce w (x ++ '"' :: (s ++ '"' :: y))).map SpelledOut.text

/-- **Texts are taken alike** in a literal if in every formula they fill one template. -/
def TakenAlike (w : Surroundings) (P : Text → Prop) : Prop :=
  ∀ x y, OpensLiteral x → ∃ r : Except ValueFault Template, ∀ s, P s →
    passOver w x s y = r.map (fill s)

/-- Harmless texts are taken alike. -/
theorem takenAlike_of_harmless {w : Surroundings} {P : Text → Prop} (h : ∀ s, P s → Harmless w s) :
    TakenAlike w P := by
  intro x y _
  obtain ⟨r, run⟩ := keepsTemplates_expandOnce w (x.map some ++ none :: y.map some)
  refine ⟨r.map Prod.fst, fun s mem => ?_⟩
  have whole : fill s (x.map some ++ none :: y.map some) = x ++ '"' :: (s ++ '"' :: y) := by
    simp [place]
  rw [passOver, ← whole, run s (h s mem)]
  cases r <;> rfl

section Alike

variable {w : Surroundings} {P : Text → Prop} {s x y : Text}

/-- What a pass makes of two of the texts it makes of all. -/
theorem TakenAlike.passOver_eq (h : TakenAlike w P) (empty : P []) (letter : P ['0'])
    (opens : OpensLiteral x) {z : Template}
    (runs : ∀ t ∈ [[], ['0']], passOver w x t y = .ok (fill t z)) (mem : P s) :
    passOver w x s y = .ok (fill s z) := by
  obtain ⟨r, all⟩ := h x y opens
  have first := (all [] empty).symm.trans (runs _ (by simp))
  have second := (all ['0'] letter).symm.trans (runs _ (by simp))
  cases r with
  | error f => cases first
  | ok z' =>
    obtain rfl := Template.eq_of_fill (Except.ok.inj first) (Except.ok.inj second)
    exact all s mem

end Alike

/-! ## 2. Calls in the text -/

/-- What is quiet in front of another text is quiet alone. -/
theorem quiet_calls_of_append {name : Text} (sn : ShorthandName name)
    {spell : List Text → Option Text} {before before' : Option Char} {v rest : Text}
    (same : inWord before' = inWord before)
    (quiet : Quiet (spellableCalls name spell) before v rest) :
    Quiet (spellableCalls name spell) before' v [] := by
  induction v generalizing before before' with
  | nil => trivial
  | cons c v ih =>
    refine ⟨Option.eq_none_iff_forall_ne_some.mpr fun f found => ?_, ih rfl quiet.2⟩
    obtain ⟨outside, word, front, body, r, y, isFront, whole, closed, spelled, -⟩ :=
      (spellableCalls_eq_some_iff sn).mp found
    rw [List.append_nil] at whole
    have there : spellableCalls name spell before c (v ++ rest) =
        some ⟨front.length + 1 + body.length, y⟩ :=
      (spellableCalls_eq_some_iff sn).mpr ⟨same.symm.trans outside, word, front, body, r ++ rest, y,
        isFront, by rw [← List.cons_append, whole]; simp, closed, spelled, rfl⟩
    rw [quiet.1] at there
    cases there

/-- **A literal that is left as it is** has nothing left to spell out in it. -/
theorem isSettled_of_passOver {w : Surroundings} {s : Text}
    (run : passOver w [] s [] = .ok (place s none)) : IsSettled w s := by
  have whole : expandOnce w (place s none) = .ok ⟨place s none, 0⟩ := by
    change (expandOnce w (place s none)).map SpelledOut.text = _ at run
    cases once : expandOnce w (place s none) with
    | error f =>
      rw [once] at run
      cases run
    | ok out =>
      rw [once] at run
      have same : out.text = place s none := Except.ok.inj run
      have less := (settles_of_expandOnce once).load_le
      rw [same] at less
      rw [← same, show (0 : Nat) = out.count by omega]
  refine isSettled_iff.mpr fun k => ?_
  obtain ⟨spell, -, obeys⟩ := k.exists_obeys w
  have quiet := obeys.quiet_iff.mp (isSettled_iff.mp whole k)
  exact obeys.quiet_iff.mpr
    (quiet_calls_of_append k.shorthandName (by decide) (quiet_append.mp quiet.2).1)

/-! ## 3. Parentheses and semicolons in the text -/

/-- What a search stays quiet in, in front of a text, stays in front when it is spelled out. -/
theorem exists_append_of_spellOut {w : Surroundings} {k : Shorthand}
    {spell : List Text → Option Text} (obeys : k.Obeys w spell) {x rest : Text} {out : SpelledOut}
    (quiet : Quiet (spellableCalls k.name.toList spell) none x rest)
    (run : k.spellOut w (x ++ rest) = .ok out) : ∃ rest', out.text = x ++ rest' := by
  rcases obeys with known | ⟨f, unknown⟩
  · rw [known, Shorthand.spellAll_eq_outcome, Finder.outcome_append_of_quiet quiet] at run
    obtain rfl := Except.ok.inj run
    exact ⟨_, rfl⟩
  · rw [unknown] at run
    split at run
    · obtain rfl := Except.ok.inj run
      exact ⟨rest, rfl⟩
    · cases run

/-- The text stays in front, whatever stands behind it. -/
def StaysInFront (w : Surroundings) (k : Shorthand) (x : Text) : Prop :=
  ∀ rest out, k.spellOut w (x ++ rest) = .ok out → ∃ rest', out.text = x ++ rest'

theorem exists_append_of_spellOutEach {w : Surroundings} {ks : List Shorthand} {x rest : Text}
    (stays : ∀ k ∈ ks, StaysInFront w k x) {n : Nat} {out : SpelledOut}
    (run : spellOutEach w ks ⟨x ++ rest, n⟩ = .ok out) : ∃ rest', out.text = x ++ rest' := by
  induction ks generalizing rest n with
  | nil =>
    obtain rfl := Except.ok.inj run
    exact ⟨rest, rfl⟩
  | cons k ks ih =>
    obtain ⟨first, others⟩ := List.forall_mem_cons.mp stays
    rw [spellOutEach_cons] at run
    cases step : k.spellOut w (x ++ rest) with
    | error f =>
      simp only [step] at run
      cases run
    | ok next =>
      obtain ⟨rest', whole⟩ := first rest next step
      simp only [step, whole, Except.bind] at run
      exact ih others run

/-- Other shorthands do not begin as the conditional does. -/
theorem staysInFront_of_ne {w : Surroundings} {k : Shorthand} (other : k ≠ .conditional) :
    StaysInFront w k ['S'] := by
  intro rest out run
  obtain ⟨spell, -, obeys⟩ := k.exists_obeys w
  refine exists_append_of_spellOut obeys ⟨?_, trivial⟩ run
  refine keyed_spellableCalls _ _ _ _ _ ?_
  cases k with
  | conditional => exact absurd rfl other
  | _ => rfl

/-- What a condition begins with stays in front, where nothing in it is spelled out. -/
theorem staysInFront_of_condition {w : Surroundings} {s b : Text} (settled : IsSettled w s)
    (begins : b <+: s) (grouped : Grouped (· ≠ ';') b) (k : Shorthand) :
    StaysInFront w k ('(' :: '"' :: (b ++ " ?".toList)) := by
  intro rest out run
  obtain ⟨spell, -, obeys⟩ := k.exists_obeys w
  refine exists_append_of_spellOut obeys ?_ run
  have sn := k.shorthandName
  have symbol (before : Option Char) {c : Char} (other : c ∉ latinLetters) (t : Text) :
      spellableCalls k.name.toList spell before c t = none :=
    keyed_spellableCalls _ _ _ _ _ (headNamed_of_not_letter sn other)
  obtain ⟨t, rfl⟩ := begins
  have alone : Quiet (spellableCalls k.name.toList spell) none b [] :=
    quiet_calls_of_append sn rfl
      (quiet_append.mp (obeys.quiet_iff.mp (isSettled_iff.mp settled k))).1
  have follows : Follows (" ?".toList ++ rest) := ⟨rfl, rfl⟩
  refine ⟨symbol _ (by decide) _, symbol _ (by decide) _, quiet_append.mpr ⟨?_, ?_⟩⟩
  · exact @quiet_calls_append _ _ sn spell none (some '"') [] b _ grouped follows (by decide) alone
  · exact ⟨symbol _ (by decide) _, symbol _ (by decide) _, trivial⟩

/-- The condition of a conditional is left open. -/
def conditionTemplate : Template := some '(' :: none :: (" ? 1 : 2)".toList).map some

/-- **A plain literal is taken for the condition.** -/
theorem passOver_condition (w : Surroundings) : ∀ t ∈ [[], ['0']],
    passOver w "SI(".toList t ";1;2)".toList = .ok (fill t conditionTemplate) := by
  have call (t : Text) (quoted : ∀ c ∈ t, c ≠ '(' ∧ c ≠ ')' ∧ c ∉ latinLetters)
      (spells : Shorthand.spellConditional
        (semicolonArguments ('"' :: (t ++ '"' :: ";1;2".toList))) = some (fill t conditionTemplate)) :
      passOver w "SI(".toList t ";1;2)".toList = .ok (fill t conditionTemplate) := by
    have whole : "SI(".toList ++ '"' :: (t ++ '"' :: ";1;2)".toList) =
        Shorthand.conditional.callText ('"' :: (t ++ '"' :: ";1;2".toList)) := by
      simp [Shorthand.callText, Shorthand.name]
    have body : ∀ c ∈ '"' :: (t ++ '"' :: ";1;2".toList), c ≠ '(' ∧ c ≠ ')' ∧ c ∉ latinLetters :=
      List.forall_mem_cons.mpr ⟨by decide, List.forall_mem_append.mpr ⟨quoted, by decide⟩⟩
    have choice : ∀ c ∈ fill t conditionTemplate, c ∉ latinLetters := by
      have shape : fill t conditionTemplate =
          ['(', '"'] ++ (t ++ "\" ? 1 : 2)".toList) := by simp [conditionTemplate, place]
      rw [shape]
      exact List.forall_mem_append.mpr ⟨by decide,
        List.forall_mem_append.mpr ⟨fun c mem => (quoted c mem).2.2, by decide⟩⟩
    have run := @expandOnce_callText w .conditional _ (fun _ => rfl) (fun _ => True) _ _
      (.of_forall fun c mem => ⟨trivial, (body c mem).1, (body c mem).2.1⟩)
      (fun k _ => quiet_of_no_letters k.shorthandName fun c mem => (body c mem).2.2) spells
      fun k => quiet_of_no_letters k.shorthandName choice
    rw [passOver, whole, run]
    rfl
  exact List.forall_mem_cons.mpr ⟨call [] (by decide) (by decide +kernel),
    List.forall_mem_singleton.mpr (call ['0'] (by decide) (by decide +kernel))⟩

/-- The first of the arguments that a body lists, up to a semicolon where there are others. -/
theorem exists_first_argument {body : Text} (grouped : Grouped (fun _ => True) body) :
    ∃ first others, semicolonArguments body = first.strip :: others ∧ Grouped (· ≠ ';') first ∧
      (others ≠ [] → ∃ rest, body = first ++ ';' :: rest) := by
  obtain ⟨x, xs, lists⟩ := Twin.exists_lists (b := Twin.same body) (by rwa [Twin.left_same])
  have arguments := (lists.semicolonArguments (Twin.alike_same body)).1
  have whole := lists.join_left
  rw [Twin.left_same] at arguments whole
  refine ⟨Twin.left x, (xs.map Twin.strip).map Twin.left, ?_, lists.grouped x List.mem_cons_self,
    fun more => ?_⟩
  · rw [arguments, List.map_cons, List.map_cons, Twin.left_strip]
  · rw [List.map_cons, Twin.join_semicolon_cons _ (by simpa using more)] at whole
    exact ⟨_, whole⟩

/-! ## 4. Nothing else is taken alike -/

variable {w : Surroundings} {s : Text}

/-- The first argument is the literal, or a semicolon in the literal ends it. -/
theorem grouped_or_exists_cut {first behind : Text} (grouped : Grouped (· ≠ ';') first)
    (cut : '"' :: (s ++ '"' :: ";1;2)".toList) = first ++ ';' :: behind) :
    Grouped (· ≠ ';') s ∨ ∃ t m, first = '"' :: t ∧ s = t ++ ';' :: m := by
  cases first with
  | nil => exact absurd (List.cons.inj cut).1 (by decide)
  | cons c t =>
    obtain ⟨rfl, inside⟩ := List.cons.inj cut
    rcases List.append_eq_append_iff.mp inside with ⟨m, rfl, tail⟩ | ⟨m, rfl, tail⟩
    · -- the only parenthesis behind the literal ends the call
      have plain : Plain m := by
        intro c mem
        have early : c ∈ ('"' :: ";1;2)".toList).dropLast := by
          rw [tail, List.dropLast_append_of_ne_nil (List.cons_ne_nil _ _)]
          exact List.mem_append_left _ mem
        exact (show ∀ c ∈ ('"' :: ";1;2)".toList).dropLast, c ≠ '(' ∧ c ≠ ')' by decide) c early
      exact .inl ((grouped.uncons.2 (by decide)).of_append_plain plain)
    · cases m with
      | nil => exact absurd (List.cons.inj tail).1 (by decide)
      | cons c m =>
        obtain ⟨rfl, -⟩ := List.cons.inj tail
        exact .inr ⟨t, m, rfl, rfl⟩

/-- A conditional that is not left as it is begins with its condition. -/
theorem exists_condition_of_spellOut {body : Text} {out : SpelledOut}
    (run : Shorthand.conditional.spellOut w ("SI(".toList ++ body) = .ok out) :
    (∃ rest, out.text = 'S' :: rest) ∨
      ∃ first behind rest, Grouped (· ≠ ';') first ∧ body = first ++ ';' :: behind ∧
        out.text = '(' :: (first.strip ++ (" ?".toList ++ rest)) := by
  have sn := Shorthand.conditional.shorthandName
  have obeys : Shorthand.conditional.Obeys w spellConditional := .inl fun _ => rfl
  cases found : spellableCalls Shorthand.conditional.name.toList spellConditional none 'S'
      ("I(".toList ++ body) with
  | none => exact .inl (exists_append_of_spellOut obeys (x := ['S']) ⟨found, trivial⟩ run)
  | some f =>
    obtain ⟨-, word, front, inside, r, y, isFront, whole, closed, spelled, rfl⟩ :=
      (spellableCalls_eq_some_iff sn).mp found
    obtain rfl : body = inside ++ ')' :: r :=
      eq_behind_paren (u := ['S', 'I']) (by decide)
        (fun paren => (isFront.plain sn _ paren).2.1 rfl) whole
    obtain ⟨first, others, arguments, grouped, splits⟩ := exists_first_argument closed
    rw [arguments] at spelled
    match others, spelled with
    | [whenTrue, whenFalse], spelled =>
      simp only [spellConditional] at spelled
      split at spelled
      · cases spelled
      · obtain rfl := Option.some.inj spelled
        obtain ⟨behind, rfl⟩ := splits (List.cons_ne_nil _ _)
        obtain ⟨rest, begins⟩ := Finder.exists_outcome_of_found found
        obtain rfl := Except.ok.inj run
        refine .inr ⟨first, behind ++ ')' :: r,
          ' ' :: (whenTrue ++ (" : ".toList ++ (whenFalse ++ ')' :: rest))), grouped, by simp, ?_⟩
        exact begins.trans (by simp)

/-- Of what begins with a quote only blanks at the end are stripped. -/
theorem exists_strip_quote (t : Text) :
    ∃ b blanks, Text.strip ('"' :: t) = '"' :: b ∧ t = b ++ blanks ∧
      ∀ c ∈ blanks, isBlank c = true := by
  obtain ⟨f, g, whole, front, back⟩ := exists_strip ('"' :: t)
  have quote : ¬ isBlank '"' = true := by decide
  cases f with
  | cons c f =>
    obtain ⟨rfl, -⟩ := List.cons.inj whole
    exact absurd (front _ List.mem_cons_self) quote
  | nil =>
    cases stripped : Text.strip ('"' :: t) with
    | nil =>
      rw [stripped] at whole
      obtain rfl : '"' :: t = g := whole
      exact absurd (back _ List.mem_cons_self) quote
    | cons c b =>
      rw [stripped] at whole
      obtain ⟨rfl, rest⟩ := List.cons.inj whole
      exact ⟨b, g, rfl, rest, back⟩

/-- Blanks in front of a semicolon are not the blank in front of a question mark. -/
theorem ne_of_blanks {blanks t t' : Text} (blank : ∀ c ∈ blanks, isBlank c = true) :
    blanks ++ ';' :: t ≠ ' ' :: '?' :: t' := by
  intro same
  match blanks with
  | [] => exact absurd (List.cons.inj same).1 (by decide)
  | [_] => exact absurd (List.cons.inj (List.cons.inj same).2).1 (by decide)
  | _ :: c :: _ =>
    obtain rfl : c = '?' := (List.cons.inj (List.cons.inj same).2).1
    exact absurd (blank '?' (by simp)) (by decide)

/-- **Counting passes over a literal** that is taken for the condition. -/
theorem grouped_of_passOver (settled : IsSettled w s)
    (run : passOver w "SI(".toList s ";1;2)".toList = .ok (fill s conditionTemplate)) :
    Grouped (· ≠ ';') s := by
  obtain ⟨out, once, text⟩ : ∃ out,
      expandOnce w ("SI(".toList ++ '"' :: (s ++ '"' :: ";1;2)".toList)) = .ok out ∧
        out.text = '(' :: '"' :: (s ++ "\" ? 1 : 2)".toList) := by
    rw [passOver] at run
    cases once : expandOnce w ("SI(".toList ++ '"' :: (s ++ '"' :: ";1;2)".toList)) with
    | error f =>
      rw [once] at run
      cases run
    | ok out =>
      rw [once] at run
      exact ⟨out, rfl, (Except.ok.inj run).trans (by simp [conditionTemplate, place])⟩
  rw [expandOnce_eq_spellOutEach, Shorthand.all, spellOutEach_cons] at once
  cases step : Shorthand.conditional.spellOut w
      ("SI(".toList ++ '"' :: (s ++ '"' :: ";1;2)".toList)) with
  | error f =>
    simp only [step] at once
    cases once
  | ok next =>
    simp only [step, Except.bind] at once
    rcases exists_condition_of_spellOut step with
      ⟨rest, left⟩ | ⟨first, behind, rest, grouped, cut, taken⟩
    · -- nothing else would take it
      rw [left] at once
      obtain ⟨rest', stays⟩ := exists_append_of_spellOutEach (x := ['S']) (fun k mem =>
        staysInFront_of_ne (by rintro rfl; exact absurd mem (by decide))) once
      rw [text] at stays
      exact absurd (List.cons.inj stays).1 (by decide)
    · rcases grouped_or_exists_cut grouped cut with whole | ⟨t, m, rfl, rfl⟩
      · exact whole
      · -- the condition would end in front of the semicolon
        obtain ⟨b, blanks, stripped, rfl, blank⟩ := exists_strip_quote t
        have before : Grouped (· ≠ ';') b :=
          (grouped.uncons.2 (by decide)).of_append_plain (plain_of_blanks blank)
        have begins : b <+: b ++ blanks ++ ';' :: m := by simp
        have taken : next.text = '(' :: '"' :: (b ++ " ?".toList) ++ rest := by
          rw [taken, stripped]
          simp
        rw [taken] at once
        obtain ⟨rest', stays⟩ := exists_append_of_spellOutEach
          (fun k _ => staysInFront_of_condition settled begins before k) once
        have same : blanks ++ (';' :: (m ++ "\" ? 1 : 2)".toList)) = ' ' :: '?' :: rest' := by
          simpa using text.symm.trans stays
        exact (ne_of_blanks blank same).elim

/-- **Only harmless texts are taken alike**, where the empty text and a letter are among them. -/
theorem TakenAlike.harmless {P : Text → Prop} (h : TakenAlike w P) (empty : P [])
    (letter : P ['0']) (mem : P s) : Harmless w s := by
  have alone : ∀ t ∈ [[], ['0']], passOver w [] t [] = .ok (fill t [none]) := by
    have free (t : Text) (quiet : '(' ∉ '"' :: (t ++ ['"'])) :
        passOver w [] t [] = .ok (fill t [none]) := by
      have once : expandOnce w ('"' :: (t ++ ['"'])) = .ok ⟨'"' :: (t ++ ['"']), 0⟩ :=
        expandOnce_of_free w fun _ => quiet_of_no_paren (by simpa using quiet)
      rw [passOver, List.nil_append, once]
      simp [place, Except.map]
    exact List.forall_mem_cons.mpr ⟨free [] (by decide),
      List.forall_mem_singleton.mpr (free ['0'] (by decide))⟩
  have opens : OpensLiteral [] := ⟨by simp, by simp⟩
  have settled : IsSettled w s := isSettled_of_passOver <| by
    rw [h.passOver_eq empty letter opens alone mem]
    simp
  have conditional : OpensLiteral "SI(".toList := ⟨by decide, by decide⟩
  exact ⟨grouped_of_passOver settled
    (h.passOver_eq empty letter conditional (passOver_condition w) mem), settled⟩

end Haulage
