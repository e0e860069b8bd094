/-
# Conditionals are spelled out as choices

Spelling out the conditionals of a formula commutes with reading it.  A formula and its spelled-out
text are read to expressions that differ in one thing: each call of the conditional, at any depth,
has become a choice between its last two arguments (`parsed_expand_of_conditionals`).

One pass works on the text, from left to right, and replaces the outermost calls; their arguments
are left for the next one.  On forms that is `Form.spellOnce`, and `Form.rewrites` is the
lemma about a pass: it says, part by part, that the text of a form becomes the text of the form
after the pass.  What a pass keeps is the expression that is meant in the end (`spelledOut_spellOnce`)
and what it takes away is one level of nesting (`conditionalDepth_spellOnce`).
-/
import Haulage.Proofs.Formula.Parsing
import Haulage.Proofs.Shorthand.Pass

namespace Haulage

open Lexer (Lexes Spells)

/-! ## 1. What is meant -/

/-- A call, or a choice if it is a conditional. -/
def choiceOrCall (n : Text) : List Expr → Expr
  | [c, a, b] => if Shorthand.conditional.Names n then .conditional c a b else .call n [c, a, b]
  | es => .call n es

namespace Expr

mutual

/-- The expression with a choice in place of every conditional. -/
def spelledOut : Expr → Expr
  | number x => number x
  | text s => text s
  | name s => name s
  | signed s e => signed s e.spelledOut
  | binary o l r => binary o l.spelledOut r.spelledOut
  | conditional c a b => conditional c.spelledOut a.spelledOut b.spelledOut
  | call n es => choiceOrCall n (spelledOutAll es)

/-- The expressions with a choice in place of every conditional. -/
def spelledOutAll : List Expr → List Expr
  | [] => []
  | e :: es => e.spelledOut :: spelledOutAll es

end

mutual

/-- How many conditionals stand inside each other. -/
def conditionalDepth : Expr → Nat
  | number _ | text _ | name _ => 0
  | signed _ e => e.conditionalDepth
  | binary _ l r => max l.conditionalDepth r.conditionalDepth
  | conditional c a b => max c.conditionalDepth (max a.conditionalDepth b.conditionalDepth)
  | call n es =>
    if Shorthand.conditional.Names n then conditionalDepthIn es + 1 else conditionalDepthIn es

/-- How many conditionals stand inside each other in any of the expressions. -/
def conditionalDepthIn : List Expr → Nat
  | [] => 0
  | e :: es => max e.conditionalDepth (conditionalDepthIn es)

end

end Expr

/-! ## 2. One pass over a form -/

/-- A call, or a choice between parentheses if it is a conditional. -/
def Form.choiceOr (n : Text) (otherwise : Form) : Arguments → Form
  | .more c _ (.more a _ (.last b)) =>
    if Shorthand.conditional.Names n then .paren (.choice c a b) else otherwise
  | _ => otherwise

mutual

/-- The form after one pass: choices in place of the outermost conditionals. -/
def Form.spellOnce : Form → Form
  | .number x => .number x
  | .text s => .text s
  | .name s => .name s
  | .paren f => .paren f.spellOnce
  | .signed s f => .signed s f.spellOnce
  | .binary o l r => .binary o l.spellOnce r.spellOnce
  | .choice c a b => .choice c.spellOnce a.spellOnce b.spellOnce
  | .emptyCall n => .emptyCall n
  | .call n as => Form.choiceOr n (.call n as.spellOnce) as

/-- The arguments after one pass. -/
def Arguments.spellOnce : Arguments → Arguments
  | .last f => .last f.spellOnce
  | .more f s as => .more f.spellOnce s as.spellOnce

end

mutual

/-- The number of outermost conditionals. -/
def Form.outermost : Form → Nat
  | .number _ | .text _ | .name _ | .emptyCall _ => 0
  | .paren f => f.outermost
  | .signed _ f => f.outermost
  | .binary _ l r => l.outermost + r.outermost
  | .choice c a b => c.outermost + (a.outermost + b.outermost)
  | .call n as => if Shorthand.conditional.Names n then 1 else as.outermost

/-- The number of outermost conditionals in arguments. -/
def Arguments.outermost : Arguments → Nat
  | .last f => f.outermost
  | .more f _ as => f.outermost + as.outermost

end

/-- A call that a pass spells out: a conditional of three arguments between semicolons, of which the
first can stand in front of a question mark. -/
inductive Fits : Text × Option Arguments → Prop
  | intro {n : Text} {c a b : Form} (names : Shorthand.conditional.Names n) (rank : 1 ≤ c.rank) :
    Fits (n, some (.more c .semicolon (.more a .semicolon (.last b))))

/-- Every call of a shorthand is a conditional that a pass spells out. -/
def Fit (calls : List (Text × Option Arguments)) : Prop :=
  ∀ call ∈ calls, ∀ s : Shorthand, s.Names call.1 → s = .conditional ∧ Fits call

theorem fit_append {calls calls' : List (Text × Option Arguments)} :
    Fit (calls ++ calls') ↔ Fit calls ∧ Fit calls' := by
  simp only [Fit, List.forall_mem_append]

theorem fit_cons {call : Text × Option Arguments} {calls : List (Text × Option Arguments)} :
    Fit (call :: calls) ↔
      (∀ s : Shorthand, s.Names call.1 → s = .conditional ∧ Fits call) ∧ Fit calls := by
  simp only [Fit, List.forall_mem_cons]

theorem Form.choiceOr_of_names {n : Text} (names : Shorthand.conditional.Names n)
    (otherwise c a b : Form) (s s' : Separator) :
    Form.choiceOr n otherwise (.more c s (.more a s' (.last b))) = .paren (.choice c a b) := by
  rw [choiceOr, if_pos names]

theorem Form.choiceOr_of_not_names {n : Text} (names : ¬Shorthand.conditional.Names n)
    (otherwise : Form) (as : Arguments) : Form.choiceOr n otherwise as = otherwise := by
  unfold choiceOr
  split
  · rw [if_neg names]
  · rfl

/-- A call that fits is a choice after the pass. -/
theorem Form.spellOnce_of_fits {n : Text} {as : Arguments} (fits : Fits (n, some as)) :
    ∃ c a b : Form, as = .more c .semicolon (.more a .semicolon (.last b)) ∧ 1 ≤ c.rank ∧
      Shorthand.conditional.Names n ∧ (Form.call n as).spellOnce = .paren (.choice c a b) := by
  cases fits with
  | @intro _ c a b names rank =>
    exact ⟨c, a, b, rfl, rank, names, by rw [spellOnce, choiceOr_of_names names]⟩

theorem Form.spellOnce_of_not_names {n : Text} (names : ¬Shorthand.conditional.Names n)
    (as : Arguments) : (Form.call n as).spellOnce = .call n as.spellOnce := by
  rw [spellOnce, choiceOr_of_not_names names]

/-- What a pass makes of a call: a choice between its arguments, or the call with what the pass makes
of them. -/
theorem Form.spellOnce_call {n : Text} {as : Arguments} (fit : Fit (Form.call n as).calls) :
    (∃ c a b : Form, as = .more c .semicolon (.more a .semicolon (.last b)) ∧ 1 ≤ c.rank ∧
      Shorthand.conditional.Names n ∧ (Form.call n as).spellOnce = .paren (.choice c a b)) ∨
    (¬Shorthand.conditional.Names n ∧ (Form.call n as).spellOnce = .call n as.spellOnce) := by
  by_cases names : Shorthand.conditional.Names n
  · exact .inl (spellOnce_of_fits (fit (n, some as) (by simp [calls]) _ names).2)
  · exact .inr ⟨names, spellOnce_of_not_names names as⟩

theorem Form.rank_spellOnce (f : Form) : f.spellOnce.rank = f.rank := by
  cases f with
  | call n as =>
    rw [spellOnce]
    unfold choiceOr
    split
    · split <;> rfl
    · rfl
  | _ => rfl

mutual

theorem Form.WellFormed.spellOnce : (f : Form) → f.WellFormed → Fit f.calls →
    f.spellOnce.WellFormed
  | .number _, _, _ => trivial
  | .text _, _, _ => trivial
  | .name _, _, _ => trivial
  | .paren f, wf, fit => Form.WellFormed.spellOnce f wf fit
  | .signed _ f, ⟨wf, rank⟩, fit => ⟨Form.WellFormed.spellOnce f wf fit, f.rank_spellOnce ▸ rank⟩
  | .binary o l r, ⟨wfl, wfr, ranks⟩, fit => by
    rw [Form.calls, fit_append] at fit
    refine ⟨Form.WellFormed.spellOnce l wfl fit.1, Form.WellFormed.spellOnce r wfr fit.2, ?_⟩
    rw [l.rank_spellOnce, r.rank_spellOnce]
    exact ranks
  | .choice c a b, ⟨wfc, wfa, wfb, rank⟩, fit => by
    rw [Form.calls, fit_append, fit_append] at fit
    exact ⟨Form.WellFormed.spellOnce c wfc fit.1, Form.WellFormed.spellOnce a wfa fit.2.1,
      Form.WellFormed.spellOnce b wfb fit.2.2, c.rank_spellOnce ▸ rank⟩
  | .emptyCall _, _, _ => trivial
  | .call n as, wf, fit => by
    rcases Form.spellOnce_call fit with ⟨c, a, b, rfl, rank, -, once⟩ | ⟨-, once⟩
    · rw [once]
      exact ⟨wf.1, wf.2.1, wf.2.2, rank⟩
    · rw [once]
      exact Arguments.WellFormed.spellOnce as wf (fit_cons.mp fit).2

theorem Arguments.WellFormed.spellOnce : (as : Arguments) → as.WellFormed → Fit as.calls →
    as.spellOnce.WellFormed
  | .last f, wf, fit => Form.WellFormed.spellOnce f wf fit
  | .more f _ as, ⟨wf, wfs⟩, fit => by
    rw [Arguments.calls, fit_append] at fit
    exact ⟨Form.WellFormed.spellOnce f wf fit.1, Arguments.WellFormed.spellOnce as wfs fit.2⟩

end

mutual

theorem Form.fit_spellOnce : (f : Form) → Fit f.calls → Fit f.spellOnce.calls
  | .number _, fit => fit
  | .text _, fit => fit
  | .name _, fit => fit
  | .paren f, fit => f.fit_spellOnce fit
  | .signed _ f, fit => f.fit_spellOnce fit
  | .binary _ l r, fit => by
    rw [Form.calls, fit_append] at fit
    exact fit_append.mpr ⟨l.fit_spellOnce fit.1, r.fit_spellOnce fit.2⟩
  | .choice c a b, fit => by
    rw [Form.calls, fit_append, fit_append] at fit
    exact fit_append.mpr ⟨c.fit_spellOnce fit.1,
      fit_append.mpr ⟨a.fit_spellOnce fit.2.1, b.fit_spellOnce fit.2.2⟩⟩
  | .emptyCall _, fit => fit
  | .call n as, fit => by
    rcases Form.spellOnce_call fit with ⟨c, a, b, rfl, -, -, once⟩ | ⟨names, once⟩
    · rw [once]
      exact (fit_cons.mp fit).2
    · rw [once]
      refine fit_cons.mpr ⟨fun s h => ?_, as.fit_spellOnce (fit_cons.mp fit).2⟩
      obtain ⟨rfl, -⟩ := (fit_cons.mp fit).1 s h
      exact absurd h names

theorem Arguments.fit_spellOnce : (as : Arguments) → Fit as.calls → Fit as.spellOnce.calls
  | .last f, fit => f.fit_spellOnce fit
  | .more f _ as, fit => by
    rw [Arguments.calls, fit_append] at fit
    exact fit_append.mpr ⟨f.fit_spellOnce fit.1, as.fit_spellOnce fit.2⟩

end

/-! ## 3. What a pass keeps and what it takes away -/

theorem choiceOrCall_of_names {n : Text} (names : Shorthand.conditional.Names n) (c a b : Expr) :
    choiceOrCall n [c, a, b] = .conditional c a b := by
  rw [choiceOrCall, if_pos names]

theorem choiceOrCall_of_not_names {n : Text} (names : ¬Shorthand.conditional.Names n)
    (es : List Expr) : choiceOrCall n es = .call n es := by
  unfold choiceOrCall
  split
  · rw [if_neg names]
  · rfl

mutual

/-- **A pass keeps what is meant.** -/
theorem Form.spelledOut_spellOnce : (f : Form) → Fit f.calls →
    f.spellOnce.expr.spelledOut = f.expr.spelledOut
  | .number _, _ => rfl
  | .text _, _ => rfl
  | .name _, _ => rfl
  | .paren f, fit => f.spelledOut_spellOnce fit
  | .signed s f, fit => congrArg (Expr.signed s) (f.spelledOut_spellOnce fit)
  | .binary o l r, fit => by
    rw [Form.calls, fit_append] at fit
    exact congrArg₂ (Expr.binary o) (l.spelledOut_spellOnce fit.1) (r.spelledOut_spellOnce fit.2)
  | .choice c a b, fit => by
    rw [Form.calls, fit_append, fit_append] at fit
    simp only [Form.spellOnce, Form.expr, Expr.spelledOut, c.spelledOut_spellOnce fit.1,
      a.spelledOut_spellOnce fit.2.1, b.spelledOut_spellOnce fit.2.2]
  | .emptyCall _, _ => rfl
  | .call n as, fit => by
    rcases Form.spellOnce_call fit with ⟨c, a, b, rfl, -, names, once⟩ | ⟨names, once⟩
    · rw [once]
      exact (choiceOrCall_of_names names _ _ _).symm
    · rw [once]
      exact congrArg (choiceOrCall n) (as.spelledOutAll_spellOnce (fit_cons.mp fit).2)

theorem Arguments.spelledOutAll_spellOnce : (as : Arguments) → Fit as.calls →
    Expr.spelledOutAll as.spellOnce.exprs = Expr.spelledOutAll as.exprs
  | .last f, fit => congrArg (· :: []) (f.spelledOut_spellOnce fit)
  | .more f _ as, fit => by
    rw [Arguments.calls, fit_append] at fit
    exact congrArg₂ List.cons (f.spelledOut_spellOnce fit.1) (as.spelledOutAll_spellOnce fit.2)

end

theorem not_names_of_emptyCall {n : Text} (fit : Fit (Form.emptyCall n).calls) :
    ¬Shorthand.conditional.Names n := fun names => by
  obtain ⟨-, fits⟩ := fit (n, none) (by simp [Form.calls]) _ names
  cases fits

theorem max_sub_one (m n : Nat) : max (m - 1) (n - 1) = max m n - 1 := by omega

mutual

/-- **A pass takes away one level of nesting.** -/
theorem Form.conditionalDepth_spellOnce : (f : Form) → Fit f.calls →
    f.spellOnce.expr.conditionalDepth = f.expr.conditionalDepth - 1
  | .number _, _ => rfl
  | .text _, _ => rfl
  | .name _, _ => rfl
  | .paren f, fit => f.conditionalDepth_spellOnce fit
  | .signed _ f, fit => f.conditionalDepth_spellOnce fit
  | .binary o l r, fit => by
    rw [Form.calls, fit_append] at fit
    simp only [Form.spellOnce, Form.expr, Expr.conditionalDepth,
      l.conditionalDepth_spellOnce fit.1, r.conditionalDepth_spellOnce fit.2, max_sub_one]
  | .choice c a b, fit => by
    rw [Form.calls, fit_append, fit_append] at fit
    simp only [Form.spellOnce, Form.expr, Expr.conditionalDepth,
      c.conditionalDepth_spellOnce fit.1, a.conditionalDepth_spellOnce fit.2.1,
      b.conditionalDepth_spellOnce fit.2.2, max_sub_one]
  | .emptyCall n, fit => by
    simp [Form.spellOnce, Form.expr, Expr.conditionalDepth, not_names_of_emptyCall fit,
      Expr.conditionalDepthIn]
  | .call n as, fit => by
    rcases Form.spellOnce_call fit with ⟨c, a, b, rfl, -, names, once⟩ | ⟨names, once⟩
    · rw [once]
      simp [Form.expr, Arguments.exprs, Expr.conditionalDepth, Expr.conditionalDepthIn, names]
    · rw [once]
      simp only [Form.expr, Expr.conditionalDepth, if_neg names,
        as.conditionalDepthIn_spellOnce (fit_cons.mp fit).2]

theorem Arguments.conditionalDepthIn_spellOnce : (as : Arguments) → Fit as.calls →
    Expr.conditionalDepthIn as.spellOnce.exprs = Expr.conditionalDepthIn as.exprs - 1
  | .last f, fit => by
    simp [Arguments.spellOnce, Arguments.exprs, Expr.conditionalDepthIn,
      f.conditionalDepth_spellOnce fit]
  | .more f _ as, fit => by
    rw [Arguments.calls, fit_append] at fit
    simp only [Arguments.spellOnce, Arguments.exprs, Expr.conditionalDepthIn,
      f.conditionalDepth_spellOnce fit.1, as.conditionalDepthIn_spellOnce fit.2, max_sub_one]

end

mutual

theorem Form.conditionalDepth_of_outermost : (f : Form) → Fit f.calls → f.outermost = 0 →
    f.expr.conditionalDepth = 0
  | .number _, _, _ => rfl
  | .text _, _, _ => rfl
  | .name _, _, _ => rfl
  | .paren f, fit, free => f.conditionalDepth_of_outermost fit free
  | .signed _ f, fit, free => f.conditionalDepth_of_outermost fit free
  | .binary o l r, fit, free => by
    rw [Form.calls, fit_append] at fit
    simp only [Form.outermost, Nat.add_eq_zero_iff] at free
    simp only [Form.expr, Expr.conditionalDepth, l.conditionalDepth_of_outermost fit.1 free.1,
      r.conditionalDepth_of_outermost fit.2 free.2, Nat.max_self]
  | .choice c a b, fit, free => by
    rw [Form.calls, fit_append, fit_append] at fit
    simp only [Form.outermost, Nat.add_eq_zero_iff] at free
    simp only [Form.expr, Expr.conditionalDepth, c.conditionalDepth_of_outermost fit.1 free.1,
      a.conditionalDepth_of_outermost fit.2.1 free.2.1,
      b.conditionalDepth_of_outermost fit.2.2 free.2.2, Nat.max_self]
  | .emptyCall n, fit, _ => by
    simp [Form.expr, Expr.conditionalDepth, not_names_of_emptyCall fit, Expr.conditionalDepthIn]
  | .call n as, fit, free => by
    simp only [Form.outermost] at free
    split at free
    · cases free
    · rename_i names
      simp only [Form.expr, Expr.conditionalDepth, if_neg names,
        as.conditionalDepthIn_of_outermost (fit_cons.mp fit).2 free]

theorem Arguments.conditionalDepthIn_of_outermost : (as : Arguments) → Fit as.calls →
    as.outermost = 0 → Expr.conditionalDepthIn as.exprs = 0
  | .last f, fit, free => by
    simp [Arguments.exprs, Expr.conditionalDepthIn, f.conditionalDepth_of_outermost fit free]
  | .more f _ as, fit, free => by
    rw [Arguments.calls, fit_append] at fit
    simp only [Arguments.outermost, Nat.add_eq_zero_iff] at free
    simp only [Arguments.exprs, Expr.conditionalDepthIn,
      f.conditionalDepth_of_outermost fit.1 free.1,
      as.conditionalDepthIn_of_outermost fit.2 free.2, Nat.max_self]

end

namespace Expr

mutual

theorem spelledOut_of_conditionalDepth : (e : Expr) → e.conditionalDepth = 0 → e.spelledOut = e
  | number _, _ => rfl
  | text _, _ => rfl
  | name _, _ => rfl
  | signed s e, free => congrArg (signed s) (e.spelledOut_of_conditionalDepth free)
  | binary o l r, free => by
    simp only [conditionalDepth, Nat.max_eq_zero_iff] at free
    exact congrArg₂ (binary o) (l.spelledOut_of_conditionalDepth free.1)
      (r.spelledOut_of_conditionalDepth free.2)
  | conditional c a b, free => by
    simp only [conditionalDepth, Nat.max_eq_zero_iff] at free
    rw [spelledOut, c.spelledOut_of_conditionalDepth free.1,
      a.spelledOut_of_conditionalDepth free.2.1, b.spelledOut_of_conditionalDepth free.2.2]
  | call n es, free => by
    simp only [conditionalDepth] at free
    split at free
    · cases free
    · rename_i names
      rw [spelledOut, choiceOrCall_of_not_names names, spelledOutAll_of_conditionalDepth es free]

theorem spelledOutAll_of_conditionalDepth : (es : List Expr) → conditionalDepthIn es = 0 →
    spelledOutAll es = es
  | [], _ => rfl
  | e :: es, free => by
    simp only [conditionalDepthIn, Nat.max_eq_zero_iff] at free
    rw [spelledOutAll, e.spelledOut_of_conditionalDepth free.1,
      spelledOutAll_of_conditionalDepth es free.2]

end

mutual

theorem not_names_of_conditionalDepth : (e : Expr) → e.conditionalDepth = 0 →
    ∀ call ∈ e.calls, ¬Shorthand.conditional.Names call.1
  | number _, _ => nofun
  | text _, _ => nofun
  | name _, _ => nofun
  | signed _ e, free => e.not_names_of_conditionalDepth free
  | binary _ l r, free => by
    simp only [conditionalDepth, Nat.max_eq_zero_iff] at free
    exact List.forall_mem_append.mpr ⟨l.not_names_of_conditionalDepth free.1,
      r.not_names_of_conditionalDepth free.2⟩
  | conditional c a b, free => by
    simp only [conditionalDepth, Nat.max_eq_zero_iff] at free
    exact List.forall_mem_append.mpr ⟨c.not_names_of_conditionalDepth free.1,
      List.forall_mem_append.mpr ⟨a.not_names_of_conditionalDepth free.2.1,
        b.not_names_of_conditionalDepth free.2.2⟩⟩
  | call n es, free => by
    simp only [conditionalDepth] at free
    split at free
    · cases free
    · rename_i names
      exact List.forall_mem_cons.mpr ⟨names, not_names_of_conditionalDepthIn es free⟩

theorem not_names_of_conditionalDepthIn : (es : List Expr) → conditionalDepthIn es = 0 →
    ∀ call ∈ callsIn es, ¬Shorthand.conditional.Names call.1
  | [], _ => nofun
  | e :: es, free => by
    simp only [conditionalDepthIn, Nat.max_eq_zero_iff] at free
    exact List.forall_mem_append.mpr ⟨e.not_names_of_conditionalDepth free.1,
      not_names_of_conditionalDepthIn es free.2⟩

end

end Expr

/-! ## 4. One pass over a text -/

/-- A pass for conditionals. -/
abbrev conditionals : Finder Text :=
  spellableCalls Shorthand.conditional.name.toList Shorthand.spellConditional

/-- The pass turns the text, wherever it stands, into one of the lexemes, and spells out so many
calls. -/
structure Rewrites (s : Text) (ls : List Lexeme) (count : Nat) : Prop where
  pieces : ∃ ps, Cuts conditionals s ps ∧ Lexes (ps.flatMap Piece.text) ls ∧
    '"' ∉ ps.flatMap Piece.text ∧ (ps.filterMap Piece.content?).length = count

namespace Rewrites

variable {s x y t : Text} {ls ls' : List Lexeme} {n m : Nat}

theorem sn : ShorthandName Shorthand.conditional.name.toList := Shorthand.shorthandName _

theorem keyed : Keyed Shorthand.conditional.name.toList conditionals := keyed_spellableCalls _ _

theorem of_quiet (h : Lexes s ls) (plain : '"' ∉ s)
    (free : ls.IsChain (NoHead Shorthand.conditional.name.toList)) : Rewrites s ls 0 := by
  refine ⟨s.map .kept, .of_quiet sn keyed h plain free, ?_, ?_, ?_⟩
  · rwa [flatMap_text_map_kept]
  · rwa [flatMap_text_map_kept]
  · rw [filterMap_content?_map_kept, List.length_nil]

theorem join (hx : Rewrites x ls n) {symbol : Symbol} (ht : Lexes t [.symbol symbol])
    (plain : '"' ∉ t) (other : symbol ≠ .openParen) (hy : Rewrites y ls' m)
    (apart : (ls ++ .symbol symbol :: ls').IsChain Lexer.Apart) :
    Rewrites (x ++ (t ++ y)) (ls ++ .symbol symbol :: ls') (n + m) := by
  obtain ⟨ps, cuts, lexes, plain', rfl⟩ := hx.pieces
  obtain ⟨qs, cuts', lexes', plain'', rfl⟩ := hy.pieces
  refine ⟨_, cuts.join sn keyed ht other cuts', ?_, ?_, ?_⟩
  · simp only [List.flatMap_append, flatMap_text_map_kept]
    exact lexes.append (ht.append lexes' apart.right_of_append) apart
  · simp only [List.flatMap_append, flatMap_text_map_kept, List.mem_append, not_or]
    exact ⟨plain', plain, plain''⟩
  · simp only [List.filterMap_append, filterMap_content?_map_kept, List.nil_append,
      List.length_append]

theorem prepend {symbol : Symbol} (ht : Lexes t [.symbol symbol]) (plain : '"' ∉ t)
    (hy : Rewrites y ls m) (apart : (Lexeme.symbol symbol :: ls).IsChain Lexer.Apart) :
    Rewrites (t ++ y) (.symbol symbol :: ls) m := by
  obtain ⟨qs, cuts, lexes, plain', rfl⟩ := hy.pieces
  refine ⟨_, cuts.wordless_append sn keyed (wordless_of_lexes ht).1, ?_, ?_, ?_⟩
  · simp only [List.flatMap_append, flatMap_text_map_kept]
    exact ht.append lexes apart
  · simp only [List.flatMap_append, flatMap_text_map_kept, List.mem_append, not_or]
    exact ⟨plain, plain'⟩
  · simp only [List.filterMap_append, filterMap_content?_map_kept, List.nil_append]

theorem append (hx : Rewrites x ls n) (ht : Lexes t [.symbol .closeParen]) (plain : '"' ∉ t)
    (apart : (ls ++ [Lexeme.symbol .closeParen]).IsChain Lexer.Apart) :
    Rewrites (x ++ t) (ls ++ [.symbol .closeParen]) n := by
  obtain ⟨ps, cuts, lexes, plain', rfl⟩ := hx.pieces
  refine ⟨_, cuts.append_wordless sn keyed (wordless_of_lexes ht).1 fun rest _ =>
    follows_of_lexes ht (by decide), ?_, ?_, ?_⟩
  · simp only [List.flatMap_append, flatMap_text_map_kept]
    exact lexes.append ht apart
  · simp only [List.flatMap_append, flatMap_text_map_kept, List.mem_append, not_or]
    exact ⟨plain', plain⟩
  · simp only [List.filterMap_append, filterMap_content?_map_kept, List.append_nil]

/-- A call by another name is rewritten between its parentheses. -/
theorem other {name : Text} (call : CallText name)
    (plain : '"' ∉ call.text) (names : ¬Shorthand.conditional.Names name)
    (body : Rewrites call.body ls n)
    (apart : (Lexeme.name name :: .symbol .openParen :: (ls ++ [.symbol .closeParen])).IsChain
      Lexer.Apart) :
    Rewrites call.text (.name name :: .symbol .openParen :: (ls ++ [.symbol .closeParen])) n := by
  obtain ⟨ps, cuts, lexes, plain', rfl⟩ := body.pieces
  simp only [CallText.text, List.mem_append, List.mem_cons, not_or] at plain
  refine ⟨_, Cuts.other sn keyed call names cuts, ?_, ?_, ?_⟩
  · simp only [List.flatMap_append, flatMap_text_map_kept]
    exact call.lexes_with lexes apart
  · simp only [List.flatMap_append, flatMap_text_map_kept, List.mem_append, List.mem_cons, not_or]
    exact ⟨plain.1, plain.2.1, plain.2.2.1, plain', plain.2.2.2.2⟩
  · simp only [List.filterMap_append, filterMap_content?_map_kept, List.nil_append,
      List.append_nil]

/-- A conditional that fits becomes a choice between parentheses. -/
theorem choice {name : Text} {c a b : Form} (names : Shorthand.conditional.Names name)
    (wf : (Arguments.more c .semicolon (.more a .semicolon (.last b))).WellFormed)
    (call : CallText name)
    (inside : Lexes call.body (Arguments.more c .semicolon (.more a .semicolon (.last b))).lexemes)
    (plain : '"' ∉ call.text) :
    Rewrites call.text (Form.paren (.choice c a b)).lexemes 1 := by
  simp only [CallText.text, List.mem_append, List.mem_cons, not_or] at plain
  have plain' := plain.2.2.2.1
  have grouped := Arguments.grouped _ wf inside plain'
  obtain ⟨x, y, z, args, hx, hy, hz⟩ : ∃ x y z, semicolonArguments call.body = [x, y, z] ∧
      Lexes x c.lexemes ∧ Lexes y a.lexemes ∧ Lexes z b.lexemes := by
    have parts := Arguments.forall₂_semicolonArguments _ wf inside plain'
    generalize semicolonArguments call.body = args at parts
    obtain _ | ⟨hx, _ | ⟨hy, _ | ⟨hz, _ | _⟩⟩⟩ := parts
    exact ⟨_, _, _, rfl, hx, hy, hz⟩
  have quote {part : Text} (mem : part ∈ semicolonArguments call.body) : '"' ∉ part :=
    fun h => plain' (mem_of_mem_semicolonArguments mem h)
  have nonempty {part : Text} {f : Form} (h : Lexes part f.lexemes) : part.isEmpty = false := by
    cases part with
    | nil => exact absurd h.eq_nil f.phrase.ne_nil
    | cons => rfl
  have spells : Shorthand.spellConditional (semicolonArguments call.body) =
      some ("(".toList ++ (x ++ (" ? ".toList ++ (y ++ (" : ".toList ++ (z ++ ")".toList)))))) := by
    simp [args, Shorthand.spellConditional, nonempty hx, nonempty hy, nonempty hz]
  obtain ⟨length, cuts⟩ := Cuts.spelled sn call names grouped spells
  refine ⟨_, cuts, ?_, ?_, ?_⟩
  · have opens : Lexes "(".toList [.symbol .openParen] := Lexer.lexes_symbol rfl
    have question : Lexes " ? ".toList [.symbol .question] := Lexer.lexes_spaced rfl
    have colon : Lexes " : ".toList [.symbol .colon] := Lexer.lexes_spaced rfl
    have closes : Lexes ")".toList [.symbol .closeParen] := Lexer.lexes_symbol rfl
    have whole : (Form.paren (.choice c a b)).lexemes = [[.symbol .openParen], c.lexemes,
        [.symbol .question], a.lexemes, [.symbol .colon], b.lexemes,
        [.symbol .closeParen]].flatten := by simp [Form.lexemes]
    have apart := (Form.paren (.choice c a b)).phrase.apart
    rw [whole] at apart ⊢
    have out := Lexer.Lexes.flatten (.cons opens (.cons hx (.cons question (.cons hy (.cons colon
      (.cons hz (.cons closes .nil))))))) apart
    simp only [List.flatMap_append, flatMap_text_map_kept, List.flatMap_cons, Piece.text]
    simpa using Lexer.Lexes.blanks_append (out.append_blanks apart call.blankBack) call.blankFront
  · rw [args] at quote
    simp only [List.flatMap_append, flatMap_text_map_kept, List.flatMap_cons, Piece.text,
      List.mem_append, not_or]
    exact ⟨plain.1, ⟨by decide, quote (by simp), by decide, quote (by simp), by decide,
      quote (by simp), by decide⟩, plain.2.2.2.2.2⟩
  · simp only [List.filterMap_append, filterMap_content?_map_kept, List.nil_append,
      List.filterMap_cons, Piece.content?, List.length_cons, List.length_nil]

end Rewrites

mutual

/-- **A pass over the text of a form** makes it the text of what the form is after the pass. -/
theorem Form.rewrites : (f : Form) → f.WellFormed → Fit f.calls → ∀ {s : Text},
    Lexes s f.lexemes → '"' ∉ s → Rewrites s f.spellOnce.lexemes f.outermost
  | .number _, _, _, _, h, plain => .of_quiet h plain (.singleton _)
  | .text _, _, _, _, h, plain => .of_quiet h plain (.singleton _)
  | .name _, _, _, _, h, plain => .of_quiet h plain (.singleton _)
  | .paren f, wf, fit, _, h, plain => by
    obtain ⟨t, rest, rfl, ht, hrest⟩ := h.uncons
    obtain ⟨x, t', rfl, hx, ht'⟩ := hrest.split
    simp only [List.mem_append, not_or] at plain
    have apart := (Form.paren f.spellOnce).phrase.apart
    exact ((f.rewrites wf fit hx plain.2.1).append ht' plain.2.2 apart.of_cons).prepend ht plain.1
      apart
  | .signed sign f, ⟨wf, _⟩, fit, _, h, plain => by
    obtain ⟨t, x, rfl, ht, hx⟩ := h.uncons
    simp only [List.mem_append, not_or] at plain
    exact (f.rewrites wf fit hx plain.2).prepend ht plain.1
      (Form.signed sign f.spellOnce).phrase.apart
  | .binary o l r, ⟨wfl, wfr, _⟩, fit, _, h, plain => by
    obtain ⟨x, t, y, rfl, hx, ht, hy⟩ := h.split_at
    simp only [List.mem_append, not_or] at plain
    rw [Form.calls, fit_append] at fit
    exact (l.rewrites wfl fit.1 hx plain.1).join ht plain.2.1 nofun
      (r.rewrites wfr fit.2 hy plain.2.2) (Form.binary o l.spellOnce r.spellOnce).phrase.apart
  | .choice c a b, ⟨wfc, wfa, wfb, _⟩, fit, _, h, plain => by
    obtain ⟨x, t, rest, rfl, hx, ht, hrest⟩ := h.split_at
    obtain ⟨y, t', z, rfl, hy, ht', hz⟩ := hrest.split_at
    simp only [List.mem_append, not_or] at plain
    rw [Form.calls, fit_append, fit_append] at fit
    have apart := (Form.choice c.spellOnce a.spellOnce b.spellOnce).phrase.apart
    exact (c.rewrites wfc fit.1 hx plain.1).join ht plain.2.1 nofun
      ((a.rewrites wfa fit.2.1 hy plain.2.2.1).join ht' plain.2.2.2.1 nofun
        (b.rewrites wfb fit.2.2 hz plain.2.2.2.2) apart.right_of_append.of_cons) apart
  | .emptyCall n, _, fit, _, h, plain => by
    obtain ⟨call, rfl, inside⟩ := @exists_call_of_lexes _ _ [] .nil h
    have plain' : '"' ∉ call.body := fun quote => plain (by simp [CallText.text, quote])
    exact .other call plain (not_names_of_emptyCall fit) (.of_quiet inside plain' .nil)
      (Form.emptyCall n).phrase.apart
  | .call n as, wf, fit, _, h, plain => by
    obtain ⟨call, rfl, inside⟩ := exists_call_of_lexes as.phrase.apart h
    rcases Form.spellOnce_call fit with ⟨c, a, b, rfl, -, names, once⟩ | ⟨names, once⟩
    · rw [once, Form.outermost, if_pos names]
      exact .choice names wf call inside plain
    · have plain' : '"' ∉ call.body := fun quote => plain (by simp [CallText.text, quote])
      have body := as.rewrites wf (fit_cons.mp fit).2 inside plain'
      rw [once, Form.outermost, if_neg names]
      exact .other call plain names body (Form.call n as.spellOnce).phrase.apart

theorem Arguments.rewrites : (as : Arguments) → as.WellFormed → Fit as.calls → ∀ {s : Text},
    Lexes s as.lexemes → '"' ∉ s → Rewrites s as.spellOnce.lexemes as.outermost
  | .last f, wf, fit, _, h, plain => f.rewrites wf fit h plain
  | .more f separator as, ⟨wf, wfs⟩, fit, _, h, plain => by
    obtain ⟨x, t, y, rfl, hx, ht, hy⟩ := h.split_at
    simp only [List.mem_append, not_or] at plain
    rw [Arguments.calls, fit_append] at fit
    exact (f.rewrites wf fit.1 hx plain.1).join ht plain.2.1 (by cases separator <;> nofun)
      (as.rewrites wfs fit.2 hy plain.2.2)
      (Arguments.more f.spellOnce separator as.spellOnce).phrase.apart

end

/-! ## 5. All passes -/

/-- What one pass over the text of a fitting form does. -/
theorem exists_expandOnce (w : Surroundings) {f : Form} (wf : f.WellFormed) (fit : Fit f.calls)
    {s : Text} (h : Lexes s f.lexemes) (plain : '"' ∉ s) :
    ∃ t, expandOnce w s = .ok ⟨t, f.outermost⟩ ∧ Lexes t f.spellOnce.lexemes ∧ '"' ∉ t := by
  obtain ⟨ps, cuts, lexes, plain', count⟩ := (f.rewrites wf fit h plain).pieces
  refine ⟨ps.flatMap Piece.text, ?_, lexes, plain'⟩
  refine expandOnce_of_only (k := .conditional) (fun k other => ?_) ?_ fun k other => ?_
  · refine spellOut_of_quiet w (quiet_of_lexes k.shorthandName h plain
      (f.isChain_noHead fun call mem names => ?_) .nil none)
    exact other (fit call mem k names).1
  · simp only [Shorthand.spellOut, Shorthand.spellAll, cuts.pieces_eq, count]
  · refine spellOut_of_quiet w (quiet_of_lexes k.shorthandName lexes plain'
      (f.spellOnce.isChain_noHead fun call mem names => ?_) .nil none)
    exact other (f.fit_spellOnce fit call mem k names).1

/-- **All passes together.**  If no conditional is nested deeper than there are passes, what comes
out is the text of a form in which none is left. -/
theorem exists_form_of_expandWithin {w : Surroundings} {passes : Nat} {f : Form}
    (wf : f.WellFormed) (fit : Fit f.calls) {s out : Text} (h : Lexes s f.lexemes)
    (plain : '"' ∉ s) (depth : f.expr.conditionalDepth ≤ passes)
    (returns : expandWithin w passes s = .ok out) :
    ∃ g : Form, g.WellFormed ∧ Lexes out g.lexemes ∧ '"' ∉ out ∧ g.expr = f.expr.spelledOut ∧
      ∀ call ∈ g.calls, ¬Shorthand.conditional.Names call.1 := by
  have done {f : Form} (wf : f.WellFormed) {s : Text} (h : Lexes s f.lexemes) (plain : '"' ∉ s)
      (free : f.expr.conditionalDepth = 0) :
      ∃ g : Form, g.WellFormed ∧ Lexes s g.lexemes ∧ '"' ∉ s ∧ g.expr = f.expr.spelledOut ∧
        ∀ call ∈ g.calls, ¬Shorthand.conditional.Names call.1 := by
    refine ⟨f, wf, h, plain, (f.expr.spelledOut_of_conditionalDepth free).symm, fun call mem => ?_⟩
    refine f.expr.not_names_of_conditionalDepth free (callExprs call) ?_
    rw [f.calls_expr]
    exact List.mem_map_of_mem mem
  induction passes generalizing f s with
  | zero =>
    obtain rfl : s = out := by simpa [expandWithin] using returns
    exact done wf h plain (Nat.le_zero.mp depth)
  | succ passes ih =>
    obtain ⟨t, once, lexes, plain'⟩ := exists_expandOnce w wf fit h plain
    have wf' := Form.WellFormed.spellOnce f wf fit
    have fit' := f.fit_spellOnce fit
    have less := f.conditionalDepth_spellOnce fit
    rw [expandWithin, once] at returns
    dsimp only at returns
    rw [← f.spelledOut_spellOnce fit]
    split at returns
    · cases returns
    split at returns
    · rename_i none
      obtain rfl : t = out := by simpa using returns
      have := f.conditionalDepth_of_outermost fit none
      exact done wf' lexes plain' (by omega)
    · exact ih wf' fit' lexes plain' (by omega) returns

/-- A call of three arguments is spelled out if its text is cut into three by semicolons, and no
question mark stands outside the parentheses of the first. -/
theorem fits_of_bodyOf {n : Text} {as : Option Arguments} {body : Text} (h : BodyOf (n, as) body)
    (names : Shorthand.conditional.Names n) (three : (callExprs (n, as)).2.length = 3)
    (separated : ∃ c a b, semicolonArguments body = [c, a, b] ∧
      (splitAtDepth (· == '?') 0 c).length = 1) : Fits (n, as) := by
  obtain ⟨x, y, z, args, question⟩ := separated
  match as, three with
  | some (.more c s (.more a s' (.last b))), _ =>
    have wf := h.wf _ rfl
    have parts := Arguments.forall₂_semicolonArguments _ wf h.lexes h.plain
    rw [args] at parts
    have length := parts.length_eq
    match s, s' with
    | .semicolon, .semicolon =>
      obtain _ | ⟨hc, -⟩ := parts
      have mem : x ∈ semicolonArguments body := by simp [args]
      have plain : '"' ∉ x := fun quote => h.plain (mem_of_mem_semicolonArguments mem quote)
      exact .intro names (Form.one_le_rank_of_splitAtDepth wf.1 hc plain question)
    | .semicolon, .comma => simp [Arguments.groups, prefixFirst] at length
    | .comma, .semicolon => simp [Arguments.groups, prefixFirst] at length
    | .comma, .comma => simp [Arguments.groups, prefixFirst] at length
  | none, three => cases three
  | some (.last _), three => cases three
  | some (.more _ _ (.last _)), three => cases three
  | some (.more _ _ (.more _ _ (.more _ _ as))), three =>
    have : as.exprs ≠ [] := by cases as <;> simp [Arguments.exprs]
    simp [callExprs, Arguments.exprs] at three
    exact absurd three this

/-- **Spelling out conditionals commutes with reading.**  If the only shorthands that a formula calls
are conditionals of three arguments between semicolons, nested no deeper than there are passes, and
no condition has a question mark outside parentheses, then the spelled-out formula is read to the
expression of the formula with a choice in place of each of them, and no conditional is left. -/
theorem parsed_expand_of_conditionals {w : Surroundings} {asked : Option Int} {f out : Text}
    {e : Expr} (read : parsed f = .ok e) (plain : '"' ∉ f)
    (only : ∀ call ∈ e.calls, ∀ s : Shorthand, s.Names call.1 →
      s = .conditional ∧ call.2.length = 3)
    (separated : ∀ site ∈ callSites (headNamed Shorthand.conditional.name.toList) f,
      ∃ c a b, semicolonArguments site.body = [c, a, b] ∧
        (splitAtDepth (· == '?') 0 c).length = 1)
    (depth : e.conditionalDepth ≤ passLimit w asked)
    (returns : expand w asked (.text f) = .ok (.text out)) :
    parsed out = .ok e.spelledOut ∧
      callSites (headNamed Shorthand.conditional.name.toList) out = [] ∧
      ∀ call ∈ e.spelledOut.calls, ¬Shorthand.conditional.Names call.1 := by
  obtain ⟨form, wf, rfl, h⟩ := parsed_eq_ok_iff.mp read
  have sn := Shorthand.conditional.shorthandName
  have fit : Fit form.calls := fun call mem s names => by
    have inExpr : callExprs call ∈ form.expr.calls := by
      rw [form.calls_expr]
      exact List.mem_map_of_mem mem
    obtain ⟨rfl, three⟩ := only _ inExpr s names
    obtain ⟨site, found, body⟩ := exists_callSite sn wf h plain mem names
    exact ⟨rfl, fits_of_bodyOf body names three (separated site found)⟩
  have nonempty : f ≠ [] := by
    rintro rfl
    exact form.phrase.ne_nil h.eq_nil
  have within := (expand_text_eq_ok_iff nonempty).mp returns
  obtain ⟨g, wfg, lexes, plain', expr, free⟩ :=
    exists_form_of_expandWithin wf fit h plain depth within
  refine ⟨parsed_eq_ok_iff.mpr ⟨g, wfg, expr, lexes⟩, callSites_eq_nil sn lexes plain' free, ?_⟩
  rw [← expr, g.calls_expr]
  intro call mem
  obtain ⟨call', mem', rfl⟩ := List.mem_map.mp mem
  exact free call' mem'

set_option maxRecDepth 20000 in
/-- For instance where a conditional is an alternative of another. -/
theorem parsed_expand_of_nested_conditionals :
    parsed "(A>B ? (B>C ? C : D) : E)".toList =
        .ok (.conditional (.binary .greater (.name ['A']) (.name ['B']))
          (.conditional (.binary .greater (.name ['B']) (.name ['C'])) (.name ['C']) (.name ['D']))
          (.name ['E'])) := by
  have read : parsed "SI(A>B;SI(B>C;C;D);E)".toList =
      .ok (.call "SI".toList [.binary .greater (.name ['A']) (.name ['B']),
        .call "SI".toList [.binary .greater (.name ['B']) (.name ['C']), .name ['C'], .name ['D']],
        .name ['E']]) := by cbv
  have sites : callSites (headNamed Shorthand.conditional.name.toList)
      "SI(A>B;SI(B>C;C;D);E)".toList = [⟨"SI".toList, 0, 21, "A>B;SI(B>C;C;D);E".toList⟩,
        ⟨"SI".toList, 7, 18, "B>C;C;D".toList⟩] := by decide
  have calls (s : Shorthand) : s.Names "SI".toList → s = .conditional := by cases s <;> decide
  exact (@parsed_expand_of_conditionals .bare none _ _ _ read (by decide)
    (by simpa [Expr.calls, Expr.callsIn] using calls)
    (by simpa only [sites, List.forall_mem_cons, List.not_mem_nil, false_imp_iff, implies_true] using
      ⟨⟨"A>B".toList, "SI(B>C;C;D)".toList, ['E'], by decide⟩,
        ⟨"B>C".toList, ['C'], ['D'], by decide⟩, trivial⟩)
    (by decide) (by rfl)).1

end Haulage
