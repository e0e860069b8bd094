/-
# Exchanging a group

Parentheses come in pairs, so a group that begins in a form ends in it (`Balanced.inside_or_behind`).
Where the lexemes of a form hold those of a group, the group is a part of the form, and another form
of the same value may be put there: the whole keeps its value (`Form.exists_exchanged`).

What is put there may come without parentheses, if it binds at least as tightly as a sign
(`StandsFor`).  `StandsBetween` says where this does not do.  Behind a name the parentheses are those
of a call, and what is raised to a power has to be a primary: `-2^2` is not `(-2)^2`.
-/
import Haulage.Proofs.Formula.Parsing
import Haulage.Formula.Evaluation

namespace Haulage

/-! ## 1. Pairs of parentheses -/

/-- How many parentheses are open behind a lexeme, if it closes none that is not open. -/
def Lexeme.open? (n : Nat) : Lexeme → Option Nat
  | .symbol .openParen => some (n + 1)
  | .symbol .closeParen => if n = 0 then none else some (n - 1)
  | _ => some n

/-- How many parentheses are open behind a row of lexemes. -/
def openBehind (n : Nat) (ls : List Lexeme) : Option Nat := ls.foldlM Lexeme.open? n

/-- Every parenthesis that is opened is closed, and no other. -/
def Balanced (ls : List Lexeme) : Prop := ∀ n, openBehind n ls = some n

section

variable {n k : Nat} {ls ls' : List Lexeme}

@[simp] theorem openBehind_nil : openBehind n [] = some n := rfl

@[simp] theorem openBehind_cons (l : Lexeme) :
    openBehind n (l :: ls) = (l.open? n).bind fun k => openBehind k ls := rfl

@[simp] theorem openBehind_append :
    openBehind n (ls ++ ls') = (openBehind n ls).bind fun k => openBehind k ls' :=
  List.foldlM_append

theorem Lexeme.open?_add {l : Lexeme} (h : l.open? n = some k) (m : Nat) :
    l.open? (n + m) = some (k + m) := by
  unfold Lexeme.open? at h ⊢
  split at h
  · obtain rfl := Option.some.inj h
    rw [Nat.add_right_comm]
  · split at h
    · cases h
    · obtain rfl := Option.some.inj h
      rw [if_neg (by omega), Nat.sub_add_comm (by omega)]
  · obtain rfl := Option.some.inj h
    rfl

/-- More that is open around the lexemes stays open. -/
theorem openBehind_add (h : openBehind n ls = some k) (m : Nat) :
    openBehind (n + m) ls = some (k + m) := by
  induction ls generalizing n with
  | nil =>
    obtain rfl := Option.some.inj h
    rfl
  | cons l ls ih =>
    obtain ⟨j, one, more⟩ := Option.bind_eq_some_iff.mp h
    rw [openBehind_cons, Lexeme.open?_add one]
    exact ih more

/-- Lexemes between parentheses. -/
abbrev group (ls : List Lexeme) : List Lexeme :=
  .symbol .openParen :: (ls ++ [.symbol .closeParen])

theorem Balanced.between (h : Balanced ls) : Balanced (group ls) := fun n => by
  simp [Lexeme.open?, h (n + 1)]

namespace Balanced

variable {xs ys inner front back rest : List Lexeme}

/-- A part that is balanced ends at the first parenthesis that it does not open. -/
theorem unique (hx : Balanced xs) (hi : Balanced inner)
    (same : xs ++ .symbol .closeParen :: ys = inner ++ .symbol .closeParen :: back) :
    xs = inner ∧ ys = back := by
  -- the longer of the two would close what is not open
  have none {us vs : List Lexeme} (hu : Balanced us) :
      ¬ Balanced (us ++ .symbol .closeParen :: vs) := fun h => by
    have := h 0
    simp [hu 0, Lexeme.open?] at this
  rcases List.append_eq_append_iff.mp same with ⟨more, rfl, behind⟩ | ⟨more, rfl, behind⟩
  · cases more with
    | nil => exact ⟨(List.append_nil _).symm, (List.cons.inj behind).2⟩
    | cons l more =>
      obtain ⟨rfl, -⟩ := List.cons.inj behind
      exact absurd hi (none hx)
  · cases more with
    | nil => exact ⟨List.append_nil _, (List.cons.inj behind).2.symm⟩
    | cons l more =>
      obtain ⟨rfl, -⟩ := List.cons.inj behind
      exact absurd hx (none hi)

/-- Lexemes that end inside of a group are not balanced. -/
theorem not_of_open (hi : Balanced (xs ++ ys)) : ¬ Balanced (front ++ .symbol .openParen :: xs) := by
  intro h
  have whole := h 0
  rw [openBehind_append, Option.bind_eq_some_iff] at whole
  obtain ⟨k, -, inside⟩ := whole
  have part := hi 0
  rw [openBehind_append, Option.bind_eq_some_iff] at part
  obtain ⟨m, part, -⟩ := part
  have more := openBehind_add part (k + 1)
  rw [Nat.zero_add] at more
  simp [Lexeme.open?, more] at inside

/-- **A group lies in a balanced part, or behind it.** -/
theorem inside_or_behind (hx : Balanced xs) (hi : Balanced inner)
    (same : xs ++ rest = front ++ (group inner ++ back)) :
    (∃ back', back = back' ++ rest ∧ xs = front ++ (group inner ++ back')) ∨
    ∃ front', front = xs ++ front' ∧ rest = front' ++ (group inner ++ back) := by
  rcases List.append_eq_append_iff.mp same with ⟨front', rfl, behind⟩ | ⟨part, rfl, behind⟩
  · exact .inr ⟨front', rfl, behind⟩
  cases part with
  | nil => exact .inr ⟨[], by simp, behind.symm⟩
  | cons l part =>
    obtain ⟨rfl, behind⟩ := List.cons.inj behind
    have behind : inner ++ .symbol .closeParen :: back = part ++ rest := by simpa using behind
    rcases List.append_eq_append_iff.mp behind with ⟨close, rfl, last⟩ | ⟨more, rfl, -⟩
    · cases close with
      | nil =>
        have whole : Balanced (inner ++ [] ++ []) := by simpa using hi
        exact absurd hx (not_of_open whole)
      | cons l back' =>
        obtain ⟨rfl, rfl⟩ := List.cons.inj last
        exact .inl ⟨back', rfl, by simp⟩
    · exact absurd hx (not_of_open hi)

/-- So it lies on one side of a symbol behind a balanced part. -/
theorem left_or_right {s : Symbol} (hx : Balanced xs) (hi : Balanced inner) (other : s ≠ .openParen)
    (same : xs ++ .symbol s :: rest = front ++ (group inner ++ back)) :
    (∃ back', back = back' ++ .symbol s :: rest ∧
      xs = front ++ (group inner ++ back')) ∨
    ∃ front', front = xs ++ .symbol s :: front' ∧ rest = front' ++ (group inner ++ back) := by
  rcases hx.inside_or_behind hi same with left | ⟨front', rfl, behind⟩
  · exact .inl left
  cases front' with
  | nil => exact absurd (Lexeme.symbol.inj (List.cons.inj behind).1) other
  | cons l front' =>
    obtain ⟨rfl, right⟩ := List.cons.inj behind
    exact .inr ⟨front', rfl, right⟩

/-- And in front of the parenthesis at the end. -/
theorem left_of_close (hx : Balanced xs) (hi : Balanced inner)
    (same : xs ++ [.symbol .closeParen] = front ++ (group inner ++ back)) :
    ∃ back', back = back' ++ [.symbol .closeParen] ∧
      xs = front ++ (group inner ++ back') := by
  rcases hx.left_or_right hi (by decide) same with left | ⟨front', -, none⟩
  · exact left
  · exact absurd none.symm (by simp)

end Balanced

end

mutual

/-- The lexemes of a form are balanced. -/
theorem Form.balanced : (f : Form) → Balanced f.lexemes
  | .number _ | .text _ | .name _ => fun _ => rfl
  | .paren f => f.balanced.between
  | .signed s f => fun n => by simp [Form.lexemes, Lexeme.open?, f.balanced n]
  | .binary o l r => fun n => by simp [Form.lexemes, Lexeme.open?, l.balanced n, r.balanced n]
  | .choice c a b => fun n => by
    simp [Form.lexemes, Lexeme.open?, c.balanced n, a.balanced n, b.balanced n]
  | .emptyCall _ => fun _ => rfl
  | .call _ as => as.balanced.between

/-- The lexemes of arguments are balanced. -/
theorem Arguments.balanced : (as : Arguments) → Balanced as.lexemes
  | .last f => f.balanced
  | .more f s as => fun n => by
    cases s <;> simp [Arguments.lexemes, Separator.symbol, Lexeme.open?, f.balanced n, as.balanced n]

end

/-! ## 2. Expressions of the same value -/

/-- Do the expressions have the same value, whatever the variables stand for? -/
def Expr.Equivalent (e e' : Expr) : Prop := ∀ bindings, e.eval bindings = e'.eval bindings

/-- Do the expressions have the same values, one after the other? -/
def Expr.EquivalentAll (es es' : List Expr) : Prop :=
  ∀ bindings, evalAll bindings es = evalAll bindings es'

namespace Expr.Equivalent

variable {c c' a a' b b' e e' : Expr} {es es' : List Expr}

theorem refl (e : Expr) : e.Equivalent e := fun _ => rfl

theorem trans (h : a.Equivalent b) (h' : b.Equivalent c) : a.Equivalent c :=
  fun bindings => (h bindings).trans (h' bindings)

theorem signed (sign : Sign) (h : e.Equivalent e') :
    (Expr.signed sign e).Equivalent (.signed sign e') :=
  fun bindings => by simp only [eval, h bindings]

theorem binary (o : Operator) (ha : a.Equivalent a') (hb : b.Equivalent b') :
    (Expr.binary o a b).Equivalent (.binary o a' b') :=
  fun bindings => by simp only [eval, ha bindings, hb bindings]

theorem conditional (hc : c.Equivalent c') (ha : a.Equivalent a') (hb : b.Equivalent b') :
    (Expr.conditional c a b).Equivalent (.conditional c' a' b') :=
  fun bindings => by simp only [eval, hc bindings, ha bindings, hb bindings]

theorem cons (h : e.Equivalent e') (more : EquivalentAll es es') :
    EquivalentAll (e :: es) (e' :: es') :=
  fun bindings => by simp only [evalAll, h bindings, more bindings]

end Expr.Equivalent

theorem Expr.EquivalentAll.call {es es' : List Expr} (n : Text) (h : EquivalentAll es es') :
    (Expr.call n es).Equivalent (.call n es') :=
  fun bindings => by simp only [eval, h bindings]

/-! ## 3. Exchanging a group -/

/-- The lexemes settle the expression. -/
theorem Form.expr_eq_of_lexemes {f g : Form} (hf : f.WellFormed) (hg : g.WellFormed)
    (same : f.lexemes = g.lexemes) : f.expr = g.expr := by
  have parse (ts : List Token) (h : ts.map Token.lexeme = f.lexemes) : f.expr = g.expr := by
    have read := Parser.parse_eq_ok_iff.mpr ⟨f, hf, rfl, h⟩
    rw [Parser.parse_eq_ok_iff.mpr ⟨g, hg, rfl, h.trans same⟩] at read
    exact (Except.ok.inj read).symm
  exact parse (f.lexemes.map fun l => ⟨l, 0⟩) (by simp [Function.comp_def])

/-- The lexemes of a form are those of one argument. -/
theorem Arguments.exprs_eq_of_lexemes (as : Arguments) {g : Form} (wf : as.WellFormed)
    (hg : g.WellFormed) (same : as.lexemes = g.lexemes) : as.exprs = [g.expr] := by
  have call : (Form.call [] as).expr = (Form.call [] (.last g)).expr :=
    Form.expr_eq_of_lexemes wf hg (by simp [Form.lexemes, Arguments.lexemes, same])
  exact (Expr.call.inj call).2

/-- May the form stand between these lexemes in the place of a group? -/
structure StandsBetween (h : Form) (front back : List Lexeme) : Prop where
  /-- The parentheses of a call stay. -/
  called : ∀ before n, front = before ++ [.name n] → ∃ k, h = .paren k
  /-- What is raised to a power is a primary. -/
  raised : ∀ behind, back = .symbol (.operator .power) :: behind → 6 ≤ h.rank

namespace StandsBetween

variable {h : Form} {front back more : List Lexeme}

theorem of_append_front (more : List Lexeme) (place : StandsBetween h (more ++ front) back) :
    StandsBetween h front back where
  called := by
    intro before n ends
    exact place.called (more ++ before) n (by simp [ends])
  raised := place.raised

theorem of_cons {l : Lexeme} (place : StandsBetween h (l :: front) back) :
    StandsBetween h front back :=
  of_append_front [l] place

theorem of_append_back (place : StandsBetween h front (back ++ more)) :
    StandsBetween h front back where
  called := place.called
  raised := by
    intro behind begins
    exact place.raised (behind ++ more) (by simp [begins])

end StandsBetween

/-- A single lexeme holds no group. -/
theorem length_ne_one {ls inner front back : List Lexeme}
    (whole : ls = front ++ (group inner ++ back)) : ls.length ≠ 1 := by
  intro one
  have := congrArg List.length whole
  simp only [List.length_append, List.length_cons, List.length_nil] at this
  omega

/-- What binds at least as tightly as a sign may be the left operand, of a power if it is a
primary. -/
theorem Form.wellFormed_binary_left {o : Operator} {l l' r : Form}
    (wf : (Form.binary o l r).WellFormed) (wfl : l'.WellFormed) (tight : 4 ≤ l'.rank)
    (raised : o = .power → 6 ≤ l'.rank) : (Form.binary o l' r).WellFormed := by
  refine ⟨wfl, wf.2.1, ?_⟩
  have binds := wf.2.2
  cases level : o.level? with
  | none =>
    rw [level] at binds
    exact ⟨raised (Operator.level?_eq_none_iff.mp level), binds.2⟩
  | some k =>
    rw [level] at binds
    have : k.rank ≤ 3 := by cases k <;> decide
    exact ⟨by omega, binds.2⟩

/-- And the right operand of anything. -/
theorem Form.wellFormed_binary_right {o : Operator} {l r r' : Form}
    (wf : (Form.binary o l r).WellFormed) (wfr : r'.WellFormed) (tight : 4 ≤ r'.rank) :
    (Form.binary o l r').WellFormed := by
  refine ⟨wf.1, wfr, ?_⟩
  have binds := wf.2.2
  cases level : o.level? with
  | none =>
    rw [level] at binds
    exact ⟨binds.1, tight⟩
  | some k =>
    rw [level] at binds
    have : k.rank ≤ 3 := by cases k <;> decide
    exact ⟨binds.1, by omega⟩

/-- May the form stand for the group of the other one, as far as the two are concerned? -/
structure StandsFor (h g : Form) : Prop where
  wellFormed : h.WellFormed
  inside : g.WellFormed
  tight : 4 ≤ h.rank
  same : h.expr.Equivalent g.expr

section

variable {g h : Form}

mutual

/-- **A group exchanged.**  With a form of the same value in the place of a group a form keeps its
value.  It binds as tightly as before, unless it is the group itself. -/
theorem Form.exists_exchanged : (f : Form) → StandsFor h g → f.WellFormed →
    ∀ front back, StandsBetween h front back →
    f.lexemes = front ++ (group g.lexemes ++ back) →
    ∃ f' : Form, f'.WellFormed ∧ f'.lexemes = front ++ (h.lexemes ++ back) ∧
      f'.expr.Equivalent f.expr ∧ (f'.rank = f.rank ∨ back = [] ∧ f' = h)
  | .number _, _, _, front, back, _, whole => (length_ne_one whole rfl).elim
  | .text _, _, _, front, back, _, whole => (length_ne_one whole rfl).elim
  | .name _, _, _, front, back, _, whole => (length_ne_one whole rfl).elim
  | .paren f, stands, wf, front, back, place, whole => by
    cases front with
    | nil =>
      have whole : f.lexemes ++ .symbol .closeParen :: [] =
          g.lexemes ++ .symbol .closeParen :: back := by simpa [Form.lexemes] using whole
      obtain ⟨lexemes, rfl⟩ := f.balanced.unique g.balanced whole
      refine ⟨h, stands.wellFormed, by simp, ?_, .inr ⟨rfl, rfl⟩⟩
      have inside : f.expr = g.expr := Form.expr_eq_of_lexemes (f := f) wf stands.inside lexemes
      rw [Form.expr, inside]
      exact stands.same
    | cons l front =>
      obtain ⟨rfl, behind⟩ := List.cons.inj whole
      obtain ⟨back, rfl, inside⟩ := f.balanced.left_of_close g.balanced behind
      obtain ⟨f', wf', lexemes, same', -⟩ :=
        f.exists_exchanged stands wf front back place.of_cons.of_append_back inside
      exact ⟨.paren f', wf', by simp [Form.lexemes, lexemes], same', .inl rfl⟩
  | .signed sign f, stands, wf, front, back, place, whole => by
    cases front with
    | nil => cases whole
    | cons l front =>
      obtain ⟨rfl, operand⟩ := List.cons.inj whole
      obtain ⟨f', wf', lexemes, same', rank⟩ :=
        f.exists_exchanged stands wf.1 front back place.of_cons operand
      refine ⟨.signed sign f', ⟨wf', ?_⟩, congrArg _ lexemes, same'.signed sign, .inl rfl⟩
      rcases rank with rank | ⟨-, rfl⟩
      · exact rank ▸ wf.2
      · exact stands.tight
  | .binary o l r, stands, wf, front, back, place, whole => by
    rcases l.balanced.left_or_right g.balanced (by simp) whole with ⟨back', rfl, left⟩ |
      ⟨front', rfl, right⟩
    · obtain ⟨l', wfl, lexemes, same', rank⟩ :=
        l.exists_exchanged stands wf.1 front back' place.of_append_back left
      refine ⟨.binary o l' r, ?_, by simp [Form.lexemes, lexemes], same'.binary o (.refl _),
        .inl rfl⟩
      rcases rank with rank | ⟨rfl, rfl⟩
      · exact ⟨wfl, wf.2.1, rank ▸ wf.2.2⟩
      · exact Form.wellFormed_binary_left wf wfl stands.tight fun power =>
          place.raised r.lexemes (power ▸ rfl)
    · obtain ⟨r', wfr, lexemes, same', rank⟩ :=
        r.exists_exchanged stands wf.2.1 front' back
          (place.of_append_front l.lexemes).of_cons right
      refine ⟨.binary o l r', ?_, by simp [Form.lexemes, lexemes],
        (Expr.Equivalent.refl _).binary o same', .inl rfl⟩
      rcases rank with rank | ⟨rfl, rfl⟩
      · exact ⟨wf.1, wfr, rank ▸ wf.2.2⟩
      · exact Form.wellFormed_binary_right wf wfr stands.tight
  | .choice c a b, stands, wf, front, back, place, whole => by
    rcases c.balanced.left_or_right g.balanced (by simp) whole with ⟨back', rfl, condition⟩ |
      ⟨front', rfl, both⟩
    · obtain ⟨c', wfc, lexemes, same', rank⟩ :=
        c.exists_exchanged stands wf.1 front back' place.of_append_back condition
      refine ⟨.choice c' a b, ⟨wfc, wf.2.1, wf.2.2.1, ?_⟩, by simp [Form.lexemes, lexemes],
        same'.conditional (.refl _) (.refl _), .inl rfl⟩
      rcases rank with rank | ⟨-, rfl⟩
      · exact rank ▸ wf.2.2.2
      · exact Nat.le_trans (by decide) stands.tight
    have place := (place.of_append_front c.lexemes).of_cons
    rcases a.balanced.left_or_right g.balanced (by simp) both with ⟨back', rfl, whenTrue⟩ |
      ⟨front', rfl, whenFalse⟩
    · obtain ⟨a', wfa, lexemes, same', -⟩ :=
        a.exists_exchanged stands wf.2.1 front' back' place.of_append_back whenTrue
      exact ⟨.choice c a' b, ⟨wf.1, wfa, wf.2.2⟩, by simp [Form.lexemes, lexemes],
        (Expr.Equivalent.refl _).conditional same' (.refl _), .inl rfl⟩
    · obtain ⟨b', wfb, lexemes, same', -⟩ := b.exists_exchanged stands wf.2.2.1 front' back
        (place.of_append_front a.lexemes).of_cons whenFalse
      exact ⟨.choice c a b', ⟨wf.1, wf.2.1, wfb, wf.2.2.2⟩, by simp [Form.lexemes, lexemes],
        (Expr.Equivalent.refl _).conditional (.refl _) same', .inl rfl⟩
  | .emptyCall n, _, _, front, back, _, whole => by
    -- nothing stands between its parentheses
    have long : 1 ≤ g.lexemes.length := List.length_pos_of_ne_nil g.phrase.ne_nil
    have length := congrArg List.length whole
    simp only [Form.lexemes, List.length_append, List.length_cons, List.length_nil] at length
    obtain rfl : front = [] := List.length_eq_zero_iff.mp (by omega)
    cases whole
  | .call n as, stands, wf, front, back, place, whole => by
    match front with
    | [] => cases whole
    | [_] =>
      obtain ⟨rfl, behind⟩ := List.cons.inj whole
      have inside : as.lexemes ++ .symbol .closeParen :: [] =
          g.lexemes ++ .symbol .closeParen :: back := by simpa using behind
      obtain ⟨lexemes, rfl⟩ := as.balanced.unique g.balanced inside
      obtain ⟨k, rfl⟩ := place.called [] n rfl
      refine ⟨.call n (.last k), stands.wellFormed, by simp [Form.lexemes, Arguments.lexemes], ?_,
        .inl rfl⟩
      refine Expr.EquivalentAll.call n ?_
      rw [as.exprs_eq_of_lexemes wf stands.inside lexemes]
      exact stands.same.cons fun _ => rfl
    | _ :: _ :: front =>
      obtain ⟨rfl, behind⟩ := List.cons.inj whole
      obtain ⟨rfl, arguments⟩ := List.cons.inj behind
      obtain ⟨back, rfl, inside⟩ := as.balanced.left_of_close g.balanced arguments
      obtain ⟨as', wf', lexemes, same'⟩ :=
        as.exists_exchanged stands wf front back place.of_cons.of_cons.of_append_back inside
      exact ⟨.call n as', wf', by simp [Form.lexemes, lexemes], same'.call n, .inl rfl⟩

/-- Arguments keep their values too. -/
theorem Arguments.exists_exchanged : (as : Arguments) → StandsFor h g → as.WellFormed →
    ∀ front back, StandsBetween h front back → as.lexemes = front ++ (group g.lexemes ++ back) →
    ∃ as' : Arguments, as'.WellFormed ∧ as'.lexemes = front ++ (h.lexemes ++ back) ∧
      Expr.EquivalentAll as'.exprs as.exprs
  | .last f, stands, wf, front, back, place, whole => by
    obtain ⟨f', wf', lexemes, same', -⟩ := f.exists_exchanged stands wf front back place whole
    exact ⟨.last f', wf', lexemes, same'.cons fun _ => rfl⟩
  | .more f s as, stands, wf, front, back, place, whole => by
    have other : s.symbol ≠ .openParen := by cases s <;> decide
    rcases f.balanced.left_or_right g.balanced other whole with ⟨back', rfl, first⟩ |
      ⟨front', rfl, rest⟩
    · obtain ⟨f', wf', lexemes, same', -⟩ :=
        f.exists_exchanged stands wf.1 front back' place.of_append_back first
      exact ⟨.more f' s as, ⟨wf', wf.2⟩, by simp [Arguments.lexemes, lexemes],
        same'.cons fun _ => rfl⟩
    · obtain ⟨as', wf', lexemes, same'⟩ := as.exists_exchanged stands wf.2 front' back
        (place.of_append_front f.lexemes).of_cons rest
      exact ⟨.more f s as', ⟨wf.1, wf'⟩, by simp [Arguments.lexemes, lexemes],
        (Expr.Equivalent.refl _).cons same'⟩

end

end

end Haulage
