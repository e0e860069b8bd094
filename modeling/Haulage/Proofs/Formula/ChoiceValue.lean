/-
# Making choices keeps the value

Of a choice between numbers evaluation computes the number that is put there, as long as its condition
is not below zero (`ChoiceParts.exists_standsFor`): evaluation takes the first alternative if the
condition is not zero, and the text the one that goes with a condition above zero.  With each choice a
form is exchanged for another of the same value, so a text that is evaluated to a number is evaluated
to the same one with its choices made, round by round (`evaluateText_simplifyChoices`).

The parentheses of a choice go with it, and `ParensMatter` says where they were needed.  The choice
is the only argument of a call, `max(1?2:3)`, which becomes the name `max2`; or a negative number is
raised to a power, and `(1?-2:3)^2` becomes `-2^2`; or there is no choice, but a text literal that
looks like one.
-/
import Haulage.Proofs.Formula.Choiceless
import Haulage.Proofs.Formula.Exchange
import Haulage.Proofs.Formula.Printing

namespace Haulage

open Lexer (Lexes Spells readQuoted?)

/-! ## 1. What is open around a choice -/

/-- As many parentheses are open as there are levels around. -/
theorem Nesting.length_around {ls : List Lexeme} {n : Nesting} {k : Nat}
    (h : openBehind n.around.length ls = some k) : (n.through ls).around.length = k := by
  induction ls generalizing n with
  | nil => exact Option.some.inj h
  | cons l ls ih =>
    obtain ⟨j, one, more⟩ := Option.bind_eq_some_iff.mp h
    have step : (n.after ⟨l, 0⟩).around.length = j := by
      cases l with
      | number | text | name => exact Option.some.inj one
      | symbol s =>
        cases s with
        | openParen => exact Option.some.inj one
        | closeParen =>
          obtain ⟨level, around, expects, deepest⟩ := n
          cases around with
          | nil => cases one
          | cons outer around => exact Option.some.inj one
        | operator o => cases o <;> exact Option.some.inj one
        | comma | semicolon | question | colon => exact Option.some.inj one
    exact ih (n := n.after ⟨l, 0⟩) (step ▸ more)

/-- Some level is around where a parenthesis is closed. -/
theorem around_ne_nil_of_close {front inner behind : List Lexeme} (hi : Balanced inner)
    (h : Balanced (front ++ (group inner ++ .symbol .closeParen :: behind))) :
    (Nesting.start.through front).around ≠ [] := by
  obtain ⟨k, runs, rest⟩ := Option.bind_eq_some_iff.mp (openBehind_append.symm.trans (h 0))
  intro none
  have length : (Nesting.start.through front).around.length = k := Nesting.length_around runs
  rw [none] at length
  obtain rfl : 0 = k := length
  rw [openBehind_append, hi.between 0] at rest
  cases rest

namespace NumericChoice

/-- The walk over a formula comes from a choice to what may follow an operand. -/
theorem exists_leads_behind_choice (c a b : Form) {front back : List Lexeme}
    (leads : Walk.start.Leads (front ++ (group (Form.choice c a b).lexemes ++ back))) :
    ∃ bs, Walk.Leads ⟨bs, .joint⟩ back := by
  obtain ⟨⟨bs, p⟩, -, leads⟩ := Walk.leads_append.mp leads
  obtain ⟨w, run, behind⟩ := Walk.leads_append.mp leads
  by_cases joint : p = .joint
  · subst joint
    cases run
  · obtain rfl : w = ⟨bs, .joint⟩ :=
      Option.some.inj (run.symm.trans (run_choice c a b joint))
    exact ⟨bs, behind⟩

theorem LiteralForm.wellFormed {f : Form} (h : LiteralForm f) : f.WellFormed := by
  cases h with
  | plain => trivial
  | minus | paren => exact ⟨trivial, Nat.le_add_left 4 2⟩

theorem LiteralForm.four_le_rank {f : Form} (h : LiteralForm f) : 4 ≤ f.rank := by
  cases h with
  | plain | paren => exact Nat.le_add_left 4 2
  | minus => exact Nat.le_refl 4

/-- A number leaves open what was open, but for its own sign. -/
theorem LiteralForm.through {f : Form} (h : LiteralForm f) (n : Nesting) :
    ∃ p d, n.through f.lexemes = ⟨{ n.level with pending := p }, n.around, false, d⟩ ∧
      n.deepest ≤ d ∧ d ≤ max n.deepest (n.level.weight + 8) ∧
      (6 ≤ f.rank → p = n.level.pending) := by
  obtain ⟨⟨below, choices, pending⟩, around, expects, deepest⟩ := n
  cases h with
  | plain x => exact ⟨pending, deepest, rfl, le_rfl, le_max_left .., fun _ => rfl⟩
  | minus x =>
    have tight : ¬ 6 ≤ (Form.signed .minus (.number x)).rank := by simp [Form.rank]
    cases expects with
    | true =>
      refine ⟨pending + 1, max deepest (below + choices + (pending + 1)), rfl, le_max_left .., ?_,
        fun primary => absurd primary tight⟩
      simp only [OpenLevel.weight]
      omega
    | false =>
      refine ⟨0, max deepest (below + choices + 0), rfl, le_max_left .., ?_,
        fun primary => absurd primary tight⟩
      simp only [OpenLevel.weight]
      omega
  | paren x =>
    refine ⟨pending, max (max (max deepest (below + choices + pending + 7 + 0 + 0))
      (below + choices + pending + 7 + 0 + 1)) (below + choices + pending), rfl, ?_, ?_, fun _ => rfl⟩
    · dsimp only
      omega
    · simp only [OpenLevel.weight]
      omega

/-- A choice leaves open what was open, and it weighs as much as any of its numbers. -/
theorem through_choice {c a b : Form} (hc : LiteralForm c) (ha : LiteralForm a)
    (hb : LiteralForm b) (n : Nesting) :
    ∃ d, n.through (group (Form.choice c a b).lexemes) = ⟨n.level, n.around, false, d⟩ ∧
      n.deepest ≤ d ∧ n.level.weight + 8 ≤ d := by
  let w := n.level.weight
  let around := n.level :: n.around
  obtain ⟨p, d, runC, least, -⟩ := hc.through ⟨⟨w + 7, 0, 0⟩, around, true, max n.deepest (w + 7)⟩
  obtain ⟨p', d', runA, leastA, -⟩ := ha.through ⟨⟨w + 7, 1, 0⟩, around, true, max d (w + 8)⟩
  obtain ⟨p'', d'', runB, leastB, -⟩ := hb.through ⟨⟨w + 7, 1, 0⟩, around, true, max d' (w + 8)⟩
  have condition : (n.through [.symbol .openParen]).through c.lexemes =
      ⟨⟨w + 7, 0, p⟩, around, false, d⟩ := runC
  have whenTrue : (Nesting.through ⟨⟨w + 7, 0, p⟩, around, false, d⟩ [.symbol .question]).through
      a.lexemes = ⟨⟨w + 7, 1, p'⟩, around, false, d'⟩ := runA
  have whenFalse : (Nesting.through ⟨⟨w + 7, 1, p'⟩, around, false, d'⟩ [.symbol .colon]).through
      b.lexemes = ⟨⟨w + 7, 1, p''⟩, around, false, d''⟩ := runB
  have lexemes : group (Form.choice c a b).lexemes = [.symbol .openParen] ++ (c.lexemes ++
      ([.symbol .question] ++ (a.lexemes ++ ([.symbol .colon] ++ (b.lexemes ++
        [.symbol .closeParen]))))) := by
    simp [Form.lexemes]
  refine ⟨max d'' w, ?_, ?_, ?_⟩
  · rw [lexemes]
    simp only [Nesting.through_append, condition, whenTrue, whenFalse]
    rfl
  · dsimp only at least leastA leastB
    omega
  · dsimp only at least leastA leastB
    omega

/-- The next symbol behind an operand ends its signs, unless that is the sign of a power. -/
theorem within_after (level : OpenLevel) {around : List OpenLevel} (p : Nat) {d d' : Nat}
    {s : Symbol} (le : d ≤ d') (other : s ≠ .openParen) (unraised : s ≠ .operator .power)
    (enclosed : s = .closeParen → around ≠ []) :
    Nesting.Within ((Nesting.mk { level with pending := p } around false d).after ⟨.symbol s, 0⟩)
      ((Nesting.mk level around false d').after ⟨.symbol s, 0⟩) := by
  cases s with
  | openParen => exact absurd rfl other
  | closeParen =>
    obtain ⟨outer, around, rfl⟩ := List.exists_cons_of_ne_nil (enclosed rfl)
    exact ⟨rfl, rfl, rfl, max_le_max le le_rfl⟩
  | operator o =>
    cases o with
    | power => exact absurd rfl unraised
    | _ => exact ⟨rfl, rfl, rfl, max_le_max le le_rfl⟩
  | comma | semicolon | question | colon => exact ⟨rfl, rfl, rfl, max_le_max le le_rfl⟩

/-- **A number in the place of a choice holds no more open**, unless it is raised to a power. -/
theorem deepest_through_le {c a b f : Form} (hc : LiteralForm c) (ha : LiteralForm a)
    (hb : LiteralForm b) (hf : LiteralForm f) {n : Nesting} {bs : List Bracket} {back : List Lexeme}
    (leads : Walk.Leads ⟨bs, .joint⟩ back)
    (raised : ∀ behind, back = .symbol (.operator .power) :: behind → 6 ≤ f.rank)
    (enclosed : ∀ behind, back = .symbol .closeParen :: behind → n.around ≠ []) :
    ((n.through f.lexemes).through back).deepest ≤
      ((n.through (group (Form.choice c a b).lexemes)).through back).deepest := by
  obtain ⟨p, d, literal, -, most, kept⟩ := hf.through n
  obtain ⟨d', choice, deeper, heavy⟩ := through_choice hc ha hb n
  rw [literal, choice]
  have le : d ≤ d' := by omega
  cases back with
  | nil => exact le
  | cons l back =>
    by_cases primary : 6 ≤ f.rank
    · -- nothing of the number is left open
      obtain rfl := kept primary
      have within : Nesting.Within ⟨n.level, n.around, false, d⟩ ⟨n.level, n.around, false, d'⟩ :=
        ⟨rfl, rfl, rfl, le⟩
      exact (within.through (l :: back)).deepest
    · obtain ⟨w, one, -⟩ := Walk.leads_cons.mp leads
      cases l with
      | number | text | name => cases one
      | symbol s =>
        have other : s ≠ .openParen := by
          rintro rfl
          cases one
        have unraised : s ≠ .operator .power := by
          rintro rfl
          exact primary (raised back rfl)
        have within := within_after n.level p le other unraised
          fun close => enclosed back (close ▸ rfl)
        exact (within.through back).deepest

/-! ## 2. The value of a choice -/

/-- Is the number below zero? -/
def isNegative (literal : Text) : Bool :=
  (readFloat? (literal.filter fun c => c != '(' && c != ')')).any (· < 0)

/-- **A choice has the value of the number that takes its place**, if its condition is not below
zero. -/
theorem ChoiceParts.exists_standsFor {inner condition a b : Text}
    (h : ChoiceParts inner condition a b) (nonneg : isNegative condition = false) :
    ∃ fc fa fb f x, LiteralForm fc ∧ LiteralForm fa ∧ LiteralForm fb ∧
      Lexes ('(' :: inner) (group (Form.choice fc fa fb).lexemes) ∧
      Denotes (if isPositive condition then a else b) f x ∧ StandsFor f (.choice fc fa fb) := by
  obtain ⟨fc, x, denotesC⟩ := (h.literals condition (by simp)).exists_denotes
  obtain ⟨fa, y, denotesA⟩ := (h.literals a (by simp)).exists_denotes
  obtain ⟨fb, z, denotesB⟩ := (h.literals b (by simp)).exists_denotes
  have lexes : Lexes ('(' :: inner) (group (Form.choice fc fa fb).lexemes) :=
    h.lexes denotesC.lexes denotesA.lexes denotesB.lexes
  have inside : (Form.choice fc fa fb).WellFormed :=
    ⟨denotesC.form.wellFormed, denotesA.form.wellFormed, denotesB.form.wellFormed,
      Nat.le_trans (by decide) denotesC.form.four_le_rank⟩
  have sign : isPositive condition = !(x == 0) := by
    have above : ¬ x < 0 := by simpa [isNegative, denotesC.read] using nonneg
    have order := pos_iff_of_not_neg denotesC.number above
    simp only [isPositive, denotesC.read, Option.any_some]
    rw [Bool.eq_iff_iff, decide_eq_true_iff, order, Bool.not_eq_true']
  have truthy (bindings : Bindings) : (Form.choice fc fa fb).expr.eval bindings =
      if isPositive condition then .ok (.float y) else .ok (.float z) := by
    simp only [Form.expr, Expr.eval, denotesC.value, denotesA.value, denotesB.value, conditionHolds,
      Value.isTruthy, sign]
    cases !(x == 0) <;> rfl
  cases positive : isPositive condition with
  | true =>
    refine ⟨fc, fa, fb, fa, y, denotesC.form, denotesA.form, denotesB.form, lexes, denotesA,
      denotesA.form.wellFormed, inside, denotesA.form.four_le_rank, ?_⟩
    intro bindings
    rw [truthy, positive, denotesA.value]
    rfl
  | false =>
    refine ⟨fc, fa, fb, fb, z, denotesC.form, denotesA.form, denotesB.form, lexes, denotesB,
      denotesB.form.wellFormed, inside, denotesB.form.four_le_rank, ?_⟩
    intro bindings
    rw [truthy, positive, denotesB.value]
    rfl

/-! ## 3. One choice made -/

/-- Do the parentheses matter that go with the choice between the two texts? -/
inductive ParensMatter (before chosen after : Text) : Prop
  /-- They are those of a call, and the number brings none of its own. -/
  | call {front : List Lexeme} {n : Text} (lexes : Lexes before (front ++ [.name n]))
      (bare : chosen.head? ≠ some '(')
  /-- A number with a minus is raised to a power. -/
  | power (minus : chosen.head? = some '-') (raised : after.stripLeft.head? = some '^')
  /-- They stand in a text literal. -/
  | literal {x p : Text} {front : List Lexeme} (whole : before = x ++ '"' :: p)
      (lexes : Lexes x front) (unclosed : readQuoted? p = none)

variable {before chosen inner after : Text}

/-- In the middle of a lexeme a choice stands only in a text literal. -/
theorem parensMatter_of_inside {x p q rest : Text} {front : List Lexeme} {l : Lexeme}
    (lexes : Lexes x front) (begun : p ≠ []) (spells : Spells (p ++ '(' :: q) l rest) :
    ParensMatter (x ++ p) chosen after := by
  obtain ⟨s, rfl⟩ := spells.exists_text_of_openParen begun
  obtain ⟨c, cs, rfl⟩ := List.exists_cons_of_ne_nil begun
  obtain ⟨rfl, read⟩ := spells.text_cases
  refine .literal rfl lexes (Option.eq_none_iff_forall_ne_some.mpr ?_)
  rintro ⟨t, rest'⟩ closed
  -- the literal would have ended in front of the choice
  obtain ⟨front', whole, reads⟩ := Lexer.readQuoted?_eq_some closed
  have split : cs ++ '(' :: q ++ rest = front' ++ ['"'] ++ (rest' ++ '(' :: q ++ rest) := by
    simp [whole]
  have same : readQuoted? (cs ++ '(' :: q ++ rest) = some (s, rest) := read
  rw [split, reads] at same
  have length := congrArg List.length (Prod.mk.inj (Option.some.inj same)).2
  simp only [List.length_append, List.length_cons] at length
  omega

/-- **One choice made.**  An expression keeps its value. -/
theorem exists_readExpression_chosen {condition a b : Text} {e : Expr}
    (parts : ChoiceParts inner condition a b) (nonneg : isNegative condition = false)
    (bare : ¬ ParensMatter before (if isPositive condition then a else b) after)
    (read : readExpression (before ++ '(' :: (inner ++ after)) = .ok e) :
    ∃ e', readExpression (before ++ ((if isPositive condition then a else b) ++ after)) = .ok e' ∧
      e'.Equivalent e := by
  obtain ⟨fc, fa, fb, f, x, hc, ha, hb, lexesChoice, denotes, stands⟩ :=
    parts.exists_standsFor nonneg
  generalize (if isPositive condition then a else b) = chosen at bare denotes ⊢
  obtain ⟨g, wf, rfl, lexes, shallow⟩ := readExpression_eq_ok_iff.mp read
  rcases lexes.cut with ⟨front, back, whole, lexesBefore, behind⟩ |
    ⟨y, p, q, rest, front, l, back, rfl, whole, begun, more, -, lexesy, spells, -⟩
  · rw [← List.cons_append] at behind
    obtain ⟨back, rfl, lexesAfter⟩ :
        ∃ back', back = group (Form.choice fc fa fb).lexemes ++ back' ∧ Lexes after back' := by
      refine lexesChoice.of_append (Form.phrase (.paren (.choice fc fa fb))).apart ?_ behind
      intro l last
      obtain rfl : .symbol .closeParen = l := by
        simpa [group, List.getLast?_cons] using last
      exact .inl rfl
    have place : StandsBetween f front back := by
      constructor
      · rintro fr n rfl
        refine denotes.enclosed (by_contra fun other => ?_)
        exact bare (.call lexesBefore other)
      · rintro fr rfl
        refine denotes.primary fun minus => ?_
        exact bare (.power minus (lexesAfter.stripLeft_of_power rfl))
    obtain ⟨g', wf', lexemes, same, -⟩ := Form.exists_exchanged g stands wf front back place whole
    have parts : List.Forall₂ Lexes [before, chosen, after] [front, f.lexemes, back] :=
      .cons lexesBefore (.cons denotes.lexes (.cons lexesAfter .nil))
    have lexes' := Lexes.flatten parts (by simpa [lexemes] using g'.phrase.apart)
    refine ⟨g'.expr, readExpression_eq_ok_iff.mpr ⟨g', wf', rfl, ?_, ?_⟩, same⟩
    · simpa [lexemes] using lexes'
    · refine le_trans ?_ shallow
      obtain ⟨bs, leads⟩ := exists_leads_behind_choice fc fa fb (Walk.leads_iff.mpr ⟨g, wf, whole⟩)
      rw [lexemes, whole]
      simp only [Nesting.through_append]
      refine deepest_through_le hc ha hb denotes.form leads place.raised ?_
      rintro behind rfl
      exact around_ne_nil_of_close (Form.balanced _) (whole ▸ g.balanced)
  · obtain ⟨d, q, rfl⟩ := List.exists_cons_of_ne_nil more
    obtain ⟨rfl, -⟩ := List.cons.inj whole
    exact absurd (parensMatter_of_inside lexesy begun spells) bare

/-! ## 4. A round of choices -/

theorem ParensMatter.of_made (h : ParensMatter before chosen (made after)) :
    ParensMatter before chosen after := by
  cases h with
  | call lexes bare => exact .call lexes bare
  | power minus raised =>
    rcases stripLeft_of_made raised with same | ⟨-, digit | minus | paren⟩
    · exact .power minus same
    · exact absurd digit (by decide)
    · cases minus
    · cases paren
  | literal whole lexes unclosed => exact .literal whole lexes unclosed

/-- Between two parts of the text stands a choice with this condition, which this number takes the
place of. -/
def HoldsChoice (s before condition chosen after : Text) : Prop :=
  ∃ cs behind, s = before ++ '(' :: cs ∧ takeNumber? cs = some (condition, behind) ∧
    choose? cs = some (chosen, after)

/-- The choice in a text that holds no other. -/
theorem HoldsChoice.eq_of_single {s condition number x rest : Text} {k : Nat}
    (h : HoldsChoice s before condition chosen after)
    (single : ∀ i < s.length, i ≠ k → choose? (s.drop (i + 1)) = none)
    (taken : (takeNumber? (s.drop (k + 1))).map Prod.fst = some number)
    (chooses : choose? (s.drop (k + 1)) = some (x, rest)) :
    before = s.take k ∧ condition = number ∧ chosen = x ∧ after = rest := by
  obtain ⟨cs, behind, rfl, taken', chooses'⟩ := h
  have inside : (before ++ '(' :: cs).drop (before.length + 1) = cs := by simp
  obtain rfl : before.length = k := by
    by_contra other
    have none := single before.length (by simp) other
    rw [inside, chooses'] at none
    cases none
  rw [inside] at taken chooses
  rw [taken'] at taken
  obtain rfl : condition = number := Option.some.inj taken
  obtain ⟨rfl, rfl⟩ := Prod.mk.inj (Option.some.inj (chooses'.symm.trans chooses))
  exact ⟨by simp, rfl, rfl, rfl⟩

/-- **A round of choices made.**  The choices are made from the right to the left, so that in front of
each there is the text as it was. -/
theorem exists_readExpression_made (front rest : Text) {e : Expr}
    (nonneg : ∀ before condition chosen after,
      HoldsChoice (front ++ rest) before condition chosen after → isNegative condition = false)
    (bare : ∀ before condition chosen after,
      HoldsChoice (front ++ rest) before condition chosen after → ¬ ParensMatter before chosen after)
    (read : readExpression (front ++ rest) = .ok e) :
    ∃ e', readExpression (front ++ made rest) = .ok e' ∧ e'.Equivalent e := by
  match rest with
  | [] => exact ⟨e, read, .refl e⟩
  | c :: cs =>
    cases found : choices none c cs with
    | none =>
      rw [made_cons_of_none found, List.append_cons]
      rw [List.append_cons] at nonneg bare read
      exact exists_readExpression_made (front ++ [c]) cs nonneg bare read
    | some f =>
      obtain ⟨rfl, chosen, after, chooses⟩ := exists_choose_of_choices found
      obtain ⟨inner, condition, behind, a, b, rfl, taken, parts, rfl⟩ :=
        exists_parts_of_choose? chooses
      have holds : HoldsChoice (front ++ '(' :: (inner ++ after)) front condition _ after :=
        ⟨inner ++ after, behind, rfl, taken, chooses⟩
      have condition := nonneg _ _ _ _ holds
      have apart := bare _ _ _ _ holds
      have split (s : Text) : front ++ '(' :: (inner ++ s) = front ++ '(' :: inner ++ s := by simp
      rw [split] at nonneg bare read
      obtain ⟨e₁, read₁, same₁⟩ :=
        exists_readExpression_made (front ++ '(' :: inner) after nonneg bare read
      rw [← split] at read₁
      obtain ⟨e₂, read₂, same₂⟩ :=
        exists_readExpression_chosen parts condition (fun matters => apart matters.of_made) read₁
      exact ⟨e₂, made_of_choice chooses ▸ read₂, same₂.trans same₁⟩
termination_by rest.length

/-! ## 5. All rounds -/

/-- In some round such a choice is made. -/
def IsMade (s before condition chosen after : Text) : Prop :=
  ∃ n, HoldsChoice (choices.replaceAll^[n] s) before condition chosen after

/-- It is made in the first round or in a later one. -/
theorem isMade_iff {s condition : Text} : IsMade s before condition chosen after ↔
    HoldsChoice s before condition chosen after ∨
      IsMade (choices.replaceAll s) before condition chosen after := by
  constructor
  · rintro ⟨_ | n, holds⟩
    · exact .inl holds
    · exact .inr ⟨n, holds⟩
  · rintro (holds | ⟨n, holds⟩)
    · exact ⟨0, holds⟩
    · exact ⟨n + 1, holds⟩

/-- Without a parenthesis there is none to be made. -/
theorem not_isMade_of_no_paren {s condition : Text} (none : '(' ∉ s)
    (stable : choices.replaceAll s = s) : ¬ IsMade s before condition chosen after := by
  rintro ⟨n, cs, -, whole, -⟩
  rw [Function.iterate_fixed stable] at whole
  exact none (whole ▸ List.mem_append_right _ (.head _))

end NumericChoice

open NumericChoice (IsMade ParensMatter choices isMade_iff isNegative not_isMade_of_no_paren)

/-- With its choices made a text is read as an expression of the same value. -/
theorem exists_readExpression_simplifyChoices {s : Text} {e : Expr}
    (nonneg : ∀ before condition chosen after, IsMade s before condition chosen after →
      isNegative condition = false)
    (bare : ∀ before condition chosen after, IsMade s before condition chosen after →
      ¬ ParensMatter before chosen after)
    (read : readExpression s = .ok e) :
    ∃ e', readExpression (simplifyChoices s) = .ok e' ∧ e'.Equivalent e := by
  fun_induction simplifyChoices s generalizing e with
  | case1 => exact ⟨e, read, .refl e⟩
  | case2 =>
    rename_i s next changed ih
    obtain ⟨e₁, read₁, same₁⟩ := NumericChoice.exists_readExpression_made [] s
      (fun _ _ _ _ holds => nonneg _ _ _ _ (isMade_iff.mpr (.inl holds)))
      (fun _ _ _ _ holds => bare _ _ _ _ (isMade_iff.mpr (.inl holds))) read
    obtain ⟨e₂, read₂, same₂⟩ := ih
      (fun _ _ _ _ later => nonneg _ _ _ _ (isMade_iff.mpr (.inr later)))
      (fun _ _ _ _ later => bare _ _ _ _ (isMade_iff.mpr (.inr later))) read₁
    exact ⟨e₂, read₂, same₂.trans same₁⟩

/-- **Making choices keeps the value.**  A text that is evaluated to a number is evaluated to the same
one with its choices made, if none of their conditions is below zero and their parentheses do not
matter. -/
theorem evaluateText_simplifyChoices {s : Text} {v : Float}
    (nonneg : ∀ before condition chosen after, IsMade s before condition chosen after →
      isNegative condition = false)
    (bare : ∀ before condition chosen after, IsMade s before condition chosen after →
      ¬ ParensMatter before chosen after)
    (evaluates : evaluateText s = .ok v) : evaluateText (simplifyChoices s) = .ok v := by
  unfold evaluateText at evaluates
  split at evaluates
  · cases evaluates
  · rename_i e read
    obtain ⟨e', read', same⟩ := exists_readExpression_simplifyChoices nonneg bare read
    unfold evaluateText
    rw [read']
    dsimp only
    rwa [Expr.evaluate, same, ← Expr.evaluate]

/-- A choice is the condition of another one, and a number with a minus takes its place. -/
theorem evaluateText_simplifyChoices_of_nested :
    evaluateText "((1?0:1)?3:-2)*4".toList = .ok (-8) ∧
      evaluateText (simplifyChoices "((1?0:1)?3:-2)*4".toList) = .ok (-8) := by
  have evaluates : evaluateText "((1?0:1)?3:-2)*4".toList = .ok (-8) := by
    let f : Form :=
      .binary .times (.paren (.choice (.paren (.choice (.number 1) (.number 0) (.number 1)))
        (.number 3) (.signed .minus (.number 2)))) (.number 4)
    have wf : f.WellFormed :=
      ⟨⟨⟨trivial, trivial, trivial, by decide⟩, trivial, ⟨trivial, by decide⟩, by decide⟩, trivial,
        by decide, by decide⟩
    have read : readExpression "((1?0:1)?3:-2)*4".toList = .ok f.expr :=
      readExpression_of_scan wf (by decide +kernel) (by decide +kernel)
    rw [evaluateText, read]
    decide +kernel
  have isMade {before condition chosen after : Text}
      (h : IsMade "((1?0:1)?3:-2)*4".toList before condition chosen after) :
      (before = ['('] ∧ condition = ['1'] ∧ chosen = ['0'] ∧ after = "?3:-2)*4".toList) ∨
        (before = [] ∧ condition = ['0'] ∧ chosen = "-2".toList ∧ after = "*4".toList) := by
    rcases isMade_iff.mp h with first | later
    · exact .inl (first.eq_of_single (k := 1) (by decide +kernel) (by decide +kernel)
        (by decide +kernel))
    have once : choices.replaceAll "((1?0:1)?3:-2)*4".toList = "(0?3:-2)*4".toList := by
      decide +kernel
    rw [once] at later
    rcases isMade_iff.mp later with second | none
    · exact .inr (second.eq_of_single (k := 0) (by decide +kernel) (by decide +kernel)
        (by decide +kernel))
    have twice : choices.replaceAll "(0?3:-2)*4".toList = "-2*4".toList := by decide +kernel
    rw [twice] at none
    exact absurd none (not_isMade_of_no_paren (by decide) (by decide +kernel))
  refine ⟨evaluates, evaluateText_simplifyChoices ?_ ?_ evaluates⟩
  · intro before condition chosen after h
    rcases isMade h with ⟨-, rfl, -⟩ | ⟨-, rfl, -⟩
    · decide +kernel
    · decide +kernel
  · intro before condition chosen after h matters
    have unnamed {front : List Lexeme} {n : Text} : ¬ Lexes ['('] (front ++ [.name n]) := by
      intro lexes
      have spells : Spells ['('] (.symbol .openParen) [] := .single rfl nofun
      obtain ⟨back, whole, empty⟩ := spells.of_lexes lexes
      obtain rfl := empty.eq_nil
      simpa using congrArg List.getLast? whole
    cases matters with
    | call lexes bare =>
      rcases isMade h with ⟨rfl, -⟩ | ⟨rfl, -⟩
      · exact unnamed lexes
      · simpa using lexes.eq_nil
    | power minus raised =>
      rcases isMade h with ⟨-, -, rfl, rfl⟩ | ⟨-, -, rfl, rfl⟩
      · exact absurd minus (by decide)
      · exact absurd raised (by decide)
    | literal whole =>
      have quote : '"' ∈ before := whole ▸ List.mem_append_right _ (.head _)
      rcases isMade h with ⟨rfl, -⟩ | ⟨rfl, -⟩
      · exact absurd quote (by decide)
      · cases quote

/-- Raised to a power such a number is not what is squared any more. -/
example : simplifyChoices "(1?-2:3)^2".toList = "-2^2".toList := by decide +kernel

end Haulage
