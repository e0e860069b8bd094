/-
# Which rows of lexemes are formulas

Ranks decide how a formula is grouped, but not whether a row of lexemes is a formula.  For that it
is enough to walk along the row and to remember what is open: after an operand comes an operator, a
question mark or whatever closes the innermost bracket, and after each of these but the last an
operand.  A question mark is a bracket too, which its colon closes.

`leads_iff` says that the walk comes to its end over exactly the lexemes of well formed forms.  One
direction follows the forms (`Form.run`).  In the other the walk is cut into units, which are put
together from left to right, each at the place in the form so far where its rank lets it stand
(`Form.exists_join`).

What this is good for: to exchange lexemes in the middle of a formula, it is enough that the walk
comes to the same place over the old ones and over the new ones.
-/
import Haulage.Proofs.Formula.Form

namespace Haulage

/-! ## 1. The walk -/

/-- What can be open at a place of a formula. -/
inductive Bracket
  /-- A parenthesis around an expression. -/
  | group
  /-- The parenthesis of a call. -/
  | call
  /-- A question mark whose colon is yet to come. -/
  | choice
deriving DecidableEq

/-- What may come next at a place of a formula. -/
inductive Place
  /-- An operand. -/
  | operand
  /-- An operand, or the end of a call without arguments. -/
  | argument
  /-- What may follow an operand, or the parenthesis that makes the name in front a call. -/
  | name
  /-- What may follow an operand. -/
  | joint
deriving DecidableEq

/-- Has an operand ended here? -/
def Place.Ended (p : Place) : Prop := p = .name ∨ p = .joint

/-- A place of a formula, with what is open there from the inside out. -/
structure Walk where
  brackets : List Bracket
  place : Place
deriving DecidableEq

namespace Walk

/-- Over a lexeme that an operand may start with. -/
def stepOperand (bs : List Bracket) : Lexeme → Option Walk
  | .number _ | .text _ => some ⟨bs, .joint⟩
  | .name _ => some ⟨bs, .name⟩
  | .symbol .openParen => some ⟨.group :: bs, .operand⟩
  | .symbol (.operator .plus) | .symbol (.operator .minus) => some ⟨bs, .operand⟩
  | .symbol _ => none

/-- Over a lexeme that may follow an operand. -/
def stepJoint (bs : List Bracket) : Lexeme → Option Walk
  | .symbol (.operator _) => some ⟨bs, .operand⟩
  | .symbol .question => some ⟨.choice :: bs, .operand⟩
  | .symbol .colon =>
    match bs with
    | .choice :: bs => some ⟨bs, .operand⟩
    | _ => none
  | .symbol .closeParen =>
    match bs with
    | .group :: bs | .call :: bs => some ⟨bs, .joint⟩
    | _ => none
  | .symbol .comma | .symbol .semicolon =>
    match bs with
    | .call :: bs => some ⟨.call :: bs, .operand⟩
    | _ => none
  | _ => none

/-- The walk goes over one lexeme. -/
def step (w : Walk) (l : Lexeme) : Option Walk :=
  match w.place with
  | .operand => stepOperand w.brackets l
  | .argument =>
    if l = .symbol .closeParen then stepJoint w.brackets l else stepOperand w.brackets l
  | .name =>
    if l = .symbol .openParen then some ⟨.call :: w.brackets, .argument⟩
    else stepJoint w.brackets l
  | .joint => stepJoint w.brackets l

/-- The walk goes over a row of lexemes. -/
def run (w : Walk) (ls : List Lexeme) : Option Walk := ls.foldlM step w

variable {w w' : Walk} {bs : List Bracket} {l : Lexeme} {ls ls' : List Lexeme}

@[simp] theorem run_nil : w.run [] = some w := rfl

@[simp] theorem run_cons : w.run (l :: ls) = (w.step l).bind fun w => w.run ls := rfl

theorem run_append : w.run (ls ++ ls') = (w.run ls).bind fun w => w.run ls' := by
  rw [run, List.foldlM_append]
  rfl

/-- The start of a formula. -/
def start : Walk := ⟨[], .operand⟩

/-- The lexemes lead from here to the end of a formula. -/
def Leads (w : Walk) (ls : List Lexeme) : Prop :=
  ∃ p : Place, w.run ls = some ⟨[], p⟩ ∧ p.Ended

theorem leads_cons : w.Leads (l :: ls) ↔ ∃ w', w.step l = some w' ∧ w'.Leads ls := by
  simp only [Leads, run_cons, Option.bind_eq_some_iff]
  constructor
  · rintro ⟨p, ⟨w', one, more⟩, ended⟩
    exact ⟨w', one, p, more, ended⟩
  · rintro ⟨w', one, p, more, ended⟩
    exact ⟨p, ⟨w', one, more⟩, ended⟩

theorem leads_append : w.Leads (ls ++ ls') ↔ ∃ w', w.run ls = some w' ∧ w'.Leads ls' := by
  simp only [Leads, run_append, Option.bind_eq_some_iff]
  constructor
  · rintro ⟨p, ⟨w', front, back⟩, ended⟩
    exact ⟨w', front, p, back, ended⟩
  · rintro ⟨w', front, p, back, ended⟩
    exact ⟨p, ⟨w', front, back⟩, ended⟩

theorem leads_nil : w.Leads [] ↔ w.brackets = [] ∧ w.place.Ended := by
  obtain ⟨bs, p⟩ := w
  simp only [Leads, run_nil, Option.some.injEq, mk.injEq]
  constructor
  · rintro ⟨_, ⟨rfl, rfl⟩, ended⟩
    exact ⟨rfl, ended⟩
  · rintro ⟨rfl, ended⟩
    exact ⟨p, ⟨rfl, rfl⟩, ended⟩

/-- Which name it is does not matter to the walk. -/
theorem step_name_congr (w : Walk) (n m : Text) : w.step (.name n) = w.step (.name m) := by
  obtain ⟨bs, p⟩ := w
  cases p <;> rfl

/-- What a text says does not matter to the walk. -/
theorem step_text_congr (w : Walk) (s t : Text) : w.step (.text s) = w.step (.text t) := by
  obtain ⟨bs, p⟩ := w
  cases p <;> rfl

/-- Unless it is made a call, a name is an operand like any other. -/
theorem step_name (other : l ≠ .symbol .openParen) : step ⟨bs, .name⟩ l = step ⟨bs, .joint⟩ l := by
  simp [step, other]

/-- An argument is an operand unless there is none. -/
theorem step_argument (other : l ≠ .symbol .closeParen) :
    step ⟨bs, .argument⟩ l = step ⟨bs, .operand⟩ l := by
  simp [step, other]

theorem leads_of_name (h : Leads ⟨bs, .name⟩ ls) (other : ls.head? ≠ some (.symbol .openParen)) :
    Leads ⟨bs, .joint⟩ ls := by
  cases ls with
  | nil => exact leads_nil.mpr ⟨(leads_nil.mp h).1, .inr rfl⟩
  | cons l ls =>
    obtain ⟨w', one, more⟩ := leads_cons.mp h
    have other : l ≠ .symbol .openParen := fun same => other (congrArg some same)
    exact leads_cons.mpr ⟨w', step_name other ▸ one, more⟩

theorem leads_of_argument (h : Leads ⟨bs, .argument⟩ ls)
    (other : ls.head? ≠ some (.symbol .closeParen)) : Leads ⟨bs, .operand⟩ ls := by
  cases ls with
  | nil => exact absurd (leads_nil.mp h).2 (by simp [Place.Ended])
  | cons l ls =>
    obtain ⟨w', one, more⟩ := leads_cons.mp h
    have other : l ≠ .symbol .closeParen := fun same => other (congrArg some same)
    exact leads_cons.mpr ⟨w', step_argument other ▸ one, more⟩

/-- After an operand that has ended, symbols that are no opening parenthesis go as after any
other. -/
theorem step_of_ended {p : Place} (ended : p.Ended) (other : l ≠ .symbol .openParen) :
    step ⟨bs, p⟩ l = stepJoint bs l := by
  rcases ended with rfl | rfl
  · exact step_name other
  · rfl

end Walk

/-! ## 2. The walk over a form -/

/-- What a phrase starts with closes no call. -/
theorem Phrase.run_argument {ls : List Lexeme} (h : Phrase ls) (bs : List Bracket) :
    Walk.run ⟨bs, .argument⟩ ls = Walk.run ⟨bs, .operand⟩ ls := by
  obtain ⟨l, first, opens⟩ := h.opens
  obtain ⟨ls, rfl⟩ := List.head?_eq_some_iff.mp first
  have other : l ≠ .symbol .closeParen := by
    rintro rfl
    rcases opens with opens | ⟨sign, opens⟩
    · cases opens
    · cases sign <;> cases opens
  rw [Walk.run_cons, Walk.run_cons, Walk.step_argument other]

/-- What is between parentheses is an operand as a whole. -/
theorem Walk.run_group {ls : List Lexeme} {bs : List Bracket}
    (h : ∃ p : Place, run ⟨.group :: bs, .operand⟩ ls = some ⟨.group :: bs, p⟩ ∧ p.Ended) :
    run ⟨bs, .operand⟩ (.symbol .openParen :: (ls ++ [.symbol .closeParen])) =
      some ⟨bs, .joint⟩ := by
  obtain ⟨p, inside, ended⟩ := h
  have opens : step ⟨bs, .operand⟩ (.symbol .openParen) = some ⟨.group :: bs, .operand⟩ := rfl
  have closes : step ⟨.group :: bs, p⟩ (.symbol .closeParen) = some ⟨bs, .joint⟩ :=
    step_of_ended ended (by decide)
  simp [run_append, opens, inside, closes]

/-- What is between the parentheses of a call is an operand with the name in front. -/
theorem Walk.run_call {ls : List Lexeme} {bs : List Bracket} (phrase : Phrase ls)
    (h : ∃ p : Place, run ⟨.call :: bs, .operand⟩ ls = some ⟨.call :: bs, p⟩ ∧ p.Ended) :
    run ⟨bs, .name⟩ (.symbol .openParen :: (ls ++ [.symbol .closeParen])) = some ⟨bs, .joint⟩ := by
  obtain ⟨p, inside, ended⟩ := h
  have opens : step ⟨bs, .name⟩ (.symbol .openParen) = some ⟨.call :: bs, .argument⟩ := rfl
  have closes : step ⟨.call :: bs, p⟩ (.symbol .closeParen) = some ⟨bs, .joint⟩ :=
    step_of_ended ended (by decide)
  rw [← phrase.run_argument] at inside
  simp [run_append, opens, inside, closes]

mutual

/-- The walk over a form ends one operand further on. -/
theorem Form.run (bs : List Bracket) : (f : Form) →
    ∃ p : Place, Walk.run ⟨bs, .operand⟩ f.lexemes = some ⟨bs, p⟩ ∧ p.Ended
  | .number _ => ⟨.joint, rfl, .inr rfl⟩
  | .text _ => ⟨.joint, rfl, .inr rfl⟩
  | .name _ => ⟨.name, rfl, .inl rfl⟩
  | .paren f => ⟨.joint, Walk.run_group (f.run (.group :: bs)), .inr rfl⟩
  | .signed sign f => by
    obtain ⟨p, inside, ended⟩ := f.run bs
    have signs : Walk.step ⟨bs, .operand⟩ (.symbol (.operator sign.operator)) =
        some ⟨bs, .operand⟩ := by cases sign <;> rfl
    exact ⟨p, by simp [Form.lexemes, signs, inside], ended⟩
  | .binary o l r => by
    obtain ⟨p, left, ended⟩ := l.run bs
    obtain ⟨q, right, ended'⟩ := r.run bs
    have joins : Walk.step ⟨bs, p⟩ (.symbol (.operator o)) = some ⟨bs, .operand⟩ :=
      Walk.step_of_ended ended (by simp)
    exact ⟨q, by simp [Form.lexemes, Walk.run_append, left, joins, right], ended'⟩
  | .choice c a b => by
    obtain ⟨p, condition, ended⟩ := c.run bs
    obtain ⟨q, whenTrue, ended'⟩ := a.run (.choice :: bs)
    obtain ⟨r, whenFalse, ended''⟩ := b.run bs
    have question : Walk.step ⟨bs, p⟩ (.symbol .question) = some ⟨.choice :: bs, .operand⟩ :=
      Walk.step_of_ended ended (by decide)
    have colon : Walk.step ⟨.choice :: bs, q⟩ (.symbol .colon) = some ⟨bs, .operand⟩ :=
      Walk.step_of_ended ended' (by decide)
    exact ⟨r, by simp [Form.lexemes, Walk.run_append, condition, question, whenTrue, colon,
      whenFalse], ended''⟩
  | .emptyCall _ => ⟨.joint, rfl, .inr rfl⟩
  | .call n as => ⟨.joint, Walk.run_call as.phrase (as.run bs), .inr rfl⟩

/-- The walk over arguments ends where the call may be closed. -/
theorem Arguments.run (bs : List Bracket) : (as : Arguments) →
    ∃ p : Place, Walk.run ⟨.call :: bs, .operand⟩ as.lexemes = some ⟨.call :: bs, p⟩ ∧ p.Ended
  | .last f => f.run (.call :: bs)
  | .more f s as => by
    obtain ⟨p, first, ended⟩ := f.run (.call :: bs)
    obtain ⟨q, rest, ended'⟩ := as.run bs
    have separates : Walk.step ⟨.call :: bs, p⟩ (.symbol s.symbol) =
        some ⟨.call :: bs, .operand⟩ := by
      cases s <;> exact Walk.step_of_ended ended (by decide)
    exact ⟨q, by simp [Arguments.lexemes, Walk.run_append, first, separates, rest], ended'⟩

end

/-! ## 3. Forms put together -/

/-- The rank of the operator: that of the forms it makes. -/
def Operator.rank (o : Operator) : Nat := (o.level?.map Level.rank).getD 5

theorem Operator.rank_of_level {o : Operator} {level : Level} (h : o.level? = some level) :
    o.rank = level.rank := by
  simp [rank, h]

theorem Operator.one_le_rank (o : Operator) : 1 ≤ o.rank := by
  cases o <;> decide

theorem Operator.rank_le_six (o : Operator) : o.rank ≤ 6 := by
  cases o <;> decide

@[simp] theorem Form.rank_binary (o : Operator) (l r : Form) : (binary o l r).rank = o.rank := rfl

theorem Operator.rank_le_of_ne {o : Operator} (other : o ≠ .power) : o.rank ≤ 3 := by
  cases o <;> first | decide | exact absurd rfl other

theorem Form.wellFormed_binary_iff {o : Operator} {l r : Form} :
    (binary o l r).WellFormed ↔ l.WellFormed ∧ r.WellFormed ∧
      (o = .power → 6 ≤ l.rank ∧ 4 ≤ r.rank) ∧ (o ≠ .power → o.rank ≤ l.rank ∧ o.rank < r.rank) := by
  rw [Form.WellFormed]
  cases level : o.level? with
  | none =>
    obtain rfl := Operator.level?_eq_none_iff.mp level
    simp
  | some level' =>
    have other : o ≠ .power := fun same => by simp [Operator.level?_eq_none_iff.mpr same] at level
    simp [other, Operator.rank_of_level level]

/-- The operator takes all of a form that binds as tightly as it does. -/
theorem Form.exists_join_here (o : Operator) {f u : Form} (wf : f.WellFormed) (wfu : u.WellFormed)
    (unit : 4 ≤ u.rank) (power : o = .power → 6 ≤ f.rank) (le : o.rank ≤ f.rank) :
    ∃ g : Form, g.WellFormed ∧ min f.rank o.rank ≤ g.rank ∧
      g.lexemes = f.lexemes ++ .symbol (.operator o) :: u.lexemes := by
  refine ⟨.binary o f u, wellFormed_binary_iff.mpr ⟨wf, wfu, fun is => ⟨power is, unit⟩,
    fun other => ⟨le, ?_⟩⟩, Nat.min_le_right _ _, rfl⟩
  have := Operator.rank_le_of_ne other
  omega

/-- **An operator and a further operand.**  They join the part of the form on its right that binds as
tightly as the operator, and the form stays well formed. -/
theorem Form.exists_join (o : Operator) {u : Form} (wfu : u.WellFormed) (unit : 4 ≤ u.rank) :
    (f : Form) → f.WellFormed → 1 ≤ f.rank →
    ∃ g : Form, g.WellFormed ∧ min f.rank o.rank ≤ g.rank ∧
      g.lexemes = f.lexemes ++ .symbol (.operator o) :: u.lexemes
  | .binary o' l r, wf, rank => by
    obtain ⟨wfl, wfr, ofPower, ofOther⟩ := wellFormed_binary_iff.mp wf
    by_cases here : o ≠ .power ∧ o.rank ≤ o'.rank
    · exact exists_join_here o wf wfu unit (fun is => absurd is here.1) here.2
    have below : 1 ≤ r.rank := by
      by_cases is : o' = .power
      · exact Nat.le_trans (by decide) (ofPower is).2
      · exact Nat.le_trans (Nat.succ_le_succ (Nat.zero_le _)) (ofOther is).2
    obtain ⟨g, wfg, rankg, lexemes⟩ := exists_join o wfu unit r wfr below
    refine ⟨.binary o' l g, wellFormed_binary_iff.mpr ⟨wfl, wfg, fun is => ⟨(ofPower is).1, ?_⟩,
      fun other => ⟨(ofOther other).1, ?_⟩⟩, Nat.min_le_left _ _, by simp [Form.lexemes, lexemes]⟩
    · -- only a power can join behind another
      have powers : o = .power := Decidable.byContradiction fun other => here ⟨other, by
        subst is
        exact Nat.le_trans (Operator.rank_le_of_ne other) (by decide)⟩
      have := (ofPower is).2
      subst powers
      exact Nat.le_trans (Nat.le_min.mpr ⟨this, by decide⟩) rankg
    · have tighter : o'.rank < o.rank := by
        by_cases is : o = .power
        · subst is
          exact Nat.lt_of_le_of_lt (Operator.rank_le_of_ne other) (by decide)
        · exact Nat.lt_of_not_le fun le => here ⟨is, le⟩
      exact Nat.lt_of_lt_of_le (Nat.lt_min.mpr ⟨(ofOther other).2, tighter⟩) rankg
  | .signed sign f, wf, rank => by
    by_cases is : o = .power
    · obtain ⟨g, wfg, rankg, lexemes⟩ :=
        exists_join o wfu unit f wf.1 (Nat.le_trans (by decide) wf.2)
      subst is
      have tight : 4 ≤ g.rank := Nat.le_trans (Nat.le_min.mpr ⟨wf.2, by decide⟩) rankg
      exact ⟨.signed sign g, ⟨wfg, tight⟩, Nat.min_le_left _ _, by simp [Form.lexemes, lexemes]⟩
    · exact exists_join_here o wf wfu unit (fun power => absurd power is)
        (Nat.le_trans (Operator.rank_le_of_ne is) (by simp [Form.rank]))
  | .choice .., _, rank => absurd rank (by simp [Form.rank])
  | .number _, wf, _ | .text _, wf, _ | .name _, wf, _ | .paren _, wf, _ | .emptyCall _, wf, _
  | .call .., wf, _ => exists_join_here o wf wfu unit (fun _ => Nat.le_refl _) o.rank_le_six

/-! ## 4. What the walk goes over is a formula -/

namespace Walk

/-- The innermost bracket goes on with the row, or the row ends where none is open. -/
def Closes : List Bracket → List Lexeme → Prop
  | [], ls => ls = []
  | .group :: bs, ls => ∃ rest, ls = .symbol .closeParen :: rest ∧ Leads ⟨bs, .joint⟩ rest
  | .choice :: bs, ls => ∃ rest, ls = .symbol .colon :: rest ∧ Leads ⟨bs, .operand⟩ rest
  | .call :: bs, ls =>
    (∃ rest, ls = .symbol .closeParen :: rest ∧ Leads ⟨bs, .joint⟩ rest) ∨
      ∃ (s : Separator) (rest : List Lexeme), ls = .symbol s.symbol :: rest ∧
        Leads ⟨.call :: bs, .operand⟩ rest

variable {bs : List Bracket} {ls : List Lexeme}

/-- **After an operand** comes an operator, a question mark, or what goes on with the bracket. -/
theorem cases_of_joint (h : Leads ⟨bs, .joint⟩ ls) :
    (∃ o rest, ls = .symbol (.operator o) :: rest ∧ Leads ⟨bs, .operand⟩ rest) ∨
    (∃ rest, ls = .symbol .question :: rest ∧ Leads ⟨.choice :: bs, .operand⟩ rest) ∨
    Closes bs ls := by
  cases ls with
  | nil =>
    obtain ⟨none, -⟩ := leads_nil.mp h
    subst none
    exact .inr (.inr rfl)
  | cons l rest =>
    obtain ⟨w', one, more⟩ := leads_cons.mp h
    cases l with
    | number | text | name => cases one
    | symbol s =>
      cases s with
      | operator o =>
        cases one
        exact .inl ⟨o, rest, rfl, more⟩
      | question =>
        cases one
        exact .inr (.inl ⟨rest, rfl, more⟩)
      | openParen => cases one
      | colon =>
        match bs, one with
        | .choice :: bs, one =>
          cases one
          exact .inr (.inr ⟨rest, rfl, more⟩)
      | closeParen =>
        match bs, one with
        | .group :: bs, one =>
          cases one
          exact .inr (.inr ⟨rest, rfl, more⟩)
        | .call :: bs, one =>
          cases one
          exact .inr (.inr (.inl ⟨rest, rfl, more⟩))
      | comma =>
        match bs, one with
        | .call :: bs, one =>
          cases one
          exact .inr (.inr (.inr ⟨.comma, rest, rfl, more⟩))
      | semicolon =>
        match bs, one with
        | .call :: bs, one =>
          cases one
          exact .inr (.inr (.inr ⟨.semicolon, rest, rfl, more⟩))

theorem length_lt_of_form {f : Form} {rest : List Lexeme} (h : ls = f.lexemes ++ rest) :
    rest.length < ls.length := by
  have := List.length_pos_iff.mpr f.phrase.ne_nil
  rw [h, List.length_append]
  omega

mutual

/-- A unit: a primary with signs in front. -/
theorem exists_unit (bs : List Bracket) (ls : List Lexeme) (h : Leads ⟨bs, .operand⟩ ls) :
    ∃ (f : Form) (rest : List Lexeme), f.WellFormed ∧ 4 ≤ f.rank ∧ ls = f.lexemes ++ rest ∧
      Leads ⟨bs, .joint⟩ rest := by
  match ls, h with
  | [], h => exact absurd (leads_nil.mp h).2 (by simp [Place.Ended])
  | .number x :: rest, h =>
    obtain ⟨_, ⟨⟩, after⟩ := leads_cons.mp h
    exact ⟨.number x, rest, trivial, (by decide : 4 ≤ 6), rfl, after⟩
  | .text s :: rest, h =>
    obtain ⟨_, ⟨⟩, after⟩ := leads_cons.mp h
    exact ⟨.text s, rest, trivial, (by decide : 4 ≤ 6), rfl, after⟩
  | .symbol (.operator o) :: rest, h =>
    obtain ⟨w', one, after⟩ := leads_cons.mp h
    obtain ⟨sign, rfl, rfl⟩ : ∃ sign : Sign, o = sign.operator ∧ w' = ⟨bs, .operand⟩ := by
      cases o <;> simp [step, stepOperand] at one
      · exact ⟨.plus, rfl, one.symm⟩
      · exact ⟨.minus, rfl, one.symm⟩
    obtain ⟨f, rest', wf, rank, rfl, behind⟩ := exists_unit bs rest after
    exact ⟨.signed sign f, rest', ⟨wf, rank⟩, Nat.le_refl _, rfl, behind⟩
  | .symbol .openParen :: inside, h =>
    obtain ⟨_, ⟨⟩, after⟩ := leads_cons.mp h
    obtain ⟨f, _, wf, rfl, rest, rfl, behind⟩ := exists_conditional (.group :: bs) inside after
    exact ⟨.paren f, rest, wf, (by decide : 4 ≤ 6), by simp [Form.lexemes], behind⟩
  | .name n :: rest, h =>
    obtain ⟨_, ⟨⟩, after⟩ := leads_cons.mp h
    by_cases opens : rest.head? = some (.symbol .openParen)
    · obtain ⟨inside, rfl⟩ := List.head?_eq_some_iff.mp opens
      obtain ⟨_, ⟨⟩, after⟩ := leads_cons.mp after
      by_cases closes : inside.head? = some (.symbol .closeParen)
      · obtain ⟨rest, rfl⟩ := List.head?_eq_some_iff.mp closes
        obtain ⟨_, ⟨⟩, behind⟩ := leads_cons.mp after
        exact ⟨.emptyCall n, rest, trivial, (by decide : 4 ≤ 6), rfl, behind⟩
      · obtain ⟨as, rest, wf, rfl, behind⟩ :=
          exists_arguments bs inside (leads_of_argument after closes)
        exact ⟨.call n as, rest, wf, (by decide : 4 ≤ 6), by simp [Form.lexemes], behind⟩
    · exact ⟨.name n, rest, trivial, (by decide : 4 ≤ 6), rfl, leads_of_name after opens⟩
termination_by (ls.length, 0)

theorem exists_conditional (bs : List Bracket) (ls : List Lexeme) (h : Leads ⟨bs, .operand⟩ ls) :
    ∃ (f : Form) (rest : List Lexeme), f.WellFormed ∧ ls = f.lexemes ++ rest ∧ Closes bs rest := by
  obtain ⟨f, rest, wf, rank, whole, more⟩ := exists_unit bs ls h
  have fewer := length_lt_of_form whole
  obtain ⟨g, rest', wfg, whole', closes⟩ :=
    exists_continued bs f wf (Nat.le_trans (by decide) rank) rest more
  exact ⟨g, rest', wfg, whole.trans whole', closes⟩
termination_by (ls.length, 1)

/-- What goes on behind a form that is no choice makes a longer form of it. -/
theorem exists_continued (bs : List Bracket) (f : Form) (wf : f.WellFormed) (rank : 1 ≤ f.rank)
    (ls : List Lexeme) (h : Leads ⟨bs, .joint⟩ ls) :
    ∃ (g : Form) (rest : List Lexeme), g.WellFormed ∧ f.lexemes ++ ls = g.lexemes ++ rest ∧
      Closes bs rest := by
  rcases cases_of_joint h with ⟨o, rest, rfl, more⟩ | ⟨inA, rfl, more⟩ | closes
  · obtain ⟨u, rest', wfu, unit, whole, more⟩ := exists_unit bs rest more
    have fewer := length_lt_of_form whole
    obtain ⟨g, wfg, rankg, lexemes⟩ := Form.exists_join o wfu unit f wf rank
    have rankg : 1 ≤ g.rank := Nat.le_trans (Nat.le_min.mpr ⟨rank, o.one_le_rank⟩) rankg
    obtain ⟨g', rest'', wfg', whole', closes⟩ := exists_continued bs g wfg rankg rest' more
    exact ⟨g', rest'', wfg', by simpa [whole, lexemes] using whole', closes⟩
  · obtain ⟨a, _, wfa, wholeA, inB, rfl, more⟩ := exists_conditional (.choice :: bs) inA more
    have fewer := length_lt_of_form wholeA
    obtain ⟨b, rest, wfb, wholeB, closes⟩ := exists_conditional bs inB more
    exact ⟨.choice f a b, rest, ⟨wf, wfa, wfb, rank⟩, by simp [Form.lexemes, wholeA, wholeB],
      closes⟩
  · exact ⟨f, ls, wf, rfl, closes⟩
termination_by (ls.length, 0)

theorem exists_arguments (bs : List Bracket) (ls : List Lexeme)
    (h : Leads ⟨.call :: bs, .operand⟩ ls) :
    ∃ (as : Arguments) (rest : List Lexeme), as.WellFormed ∧
      ls = as.lexemes ++ .symbol .closeParen :: rest ∧ Leads ⟨bs, .joint⟩ rest := by
  obtain ⟨f, _, wf, whole, ⟨rest, rfl, more⟩ | ⟨s, rest, rfl, more⟩⟩ :=
    exists_conditional (.call :: bs) ls h
  · exact ⟨.last f, rest, wf, whole, more⟩
  · have fewer := length_lt_of_form whole
    obtain ⟨as, rest', wfs, whole', more⟩ := exists_arguments bs rest more
    exact ⟨.more f s as, rest', ⟨wf, wfs⟩, by simp [Arguments.lexemes, whole, whole'], more⟩
termination_by (ls.length, 2)

end

/-- **The walk accepts what is well formed**, and nothing else. -/
theorem leads_iff {ls : List Lexeme} :
    start.Leads ls ↔ ∃ f : Form, f.WellFormed ∧ f.lexemes = ls := by
  constructor
  · intro h
    obtain ⟨f, _, wf, rfl, rfl⟩ := exists_conditional [] ls h
    exact ⟨f, wf, (List.append_nil _).symm⟩
  · rintro ⟨f, -, rfl⟩
    exact f.run []

/-- Whatever the walk accepts may be written without blanks. -/
theorem Leads.apart {ls : List Lexeme} (h : start.Leads ls) : ls.IsChain Lexer.Apart := by
  obtain ⟨f, -, rfl⟩ := leads_iff.mp h
  exact f.phrase.apart

end Walk

end Haulage
