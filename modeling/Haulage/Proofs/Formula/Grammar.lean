/-
# The parser reads the grammar

`Derives` is the grammar of formulas, one constructor for each way in which a phrase may be put
together, with the expression that the phrase stands for.  Operators of a level are read one after
the other (`Continues`), each joining its operand to all that stands in front of it, and so they
group to the left; a power takes a whole operand with its signs as exponent, and so powers group to
the right, as alternatives of choices do.

A derivation and a well formed `Form` are two ways to say the same (`derives_iff`), so the parser
accepts exactly what can be derived.  What it refuses it refuses at a place (`Refuses`): at a token
that cannot stand there, or at the end of the row.  Nothing behind the end is looked at.
-/
import Haulage.Proofs.Formula.Parsing

namespace Haulage

/-! ## 1. The grammar -/

/-- The kinds of phrases, loosest first. -/
inductive Category
  | conditional
  | chain (level : Level)
  | unary | power | primary
deriving DecidableEq

/-- What the operators of a level stand between. -/
def Level.operands : Level → Category
  | .comparison => .chain .additive
  | .additive => .chain .term
  | .term => .unary

mutual

/-- The lexemes are a phrase of the kind that stands for the expression. -/
inductive Derives : Category → List Lexeme → Expr → Prop
  | comparison {ls e} (h : Derives (.chain .comparison) ls e) : Derives .conditional ls e
  | choice {cs as bs c a b} (hc : Derives (.chain .comparison) cs c)
      (ha : Derives .conditional as a) (hb : Derives .conditional bs b) :
      Derives .conditional (cs ++ .symbol .question :: (as ++ .symbol .colon :: bs))
        (.conditional c a b)
  | chain {level ls ls' first e} (hf : Derives level.operands ls first)
      (rest : Continues level first ls' e) : Derives (.chain level) (ls ++ ls') e
  | signed {ls e} (sign : Sign) (h : Derives .unary ls e) :
      Derives .unary (.symbol (.operator sign.operator) :: ls) (.signed sign e)
  | unsigned {ls e} (h : Derives .power ls e) : Derives .unary ls e
  | raised {bs xs base exponent} (hb : Derives .primary bs base) (hx : Derives .unary xs exponent) :
      Derives .power (bs ++ .symbol (.operator .power) :: xs) (.binary .power base exponent)
  | unraised {ls e} (h : Derives .primary ls e) : Derives .power ls e
  | number (x : Float) : Derives .primary [.number x] (.number x)
  | text (s : Text) : Derives .primary [.text s] (.text s)
  | name (n : Text) : Derives .primary [.name n] (.name n)
  | paren {ls e} (h : Derives .conditional ls e) :
      Derives .primary (.symbol .openParen :: (ls ++ [.symbol .closeParen])) e
  | emptyCall (n : Text) :
      Derives .primary [.name n, .symbol .openParen, .symbol .closeParen] (.call n [])
  | call {ls es} (n : Text) (h : DerivesArguments ls es) :
      Derives .primary (.name n :: .symbol .openParen :: (ls ++ [.symbol .closeParen])) (.call n es)

/-- Behind a phrase that stands for the first expression the lexemes make a phrase of the level that
stands for the second: each is an operator of the level with its right operand. -/
inductive Continues : Level → Expr → List Lexeme → Expr → Prop
  | nil {level e} : Continues level e [] e
  | cons {level left right e rs ls} {o : Operator} (ofLevel : o.level? = some level)
      (hr : Derives level.operands rs right) (rest : Continues level (.binary o left right) ls e) :
      Continues level left (.symbol (.operator o) :: (rs ++ ls)) e

/-- The lexemes are one or more phrases with separators between them. -/
inductive DerivesArguments : List Lexeme → List Expr → Prop
  | last {ls e} (h : Derives .conditional ls e) : DerivesArguments ls [e]
  | more {ls ls' e es} (h : Derives .conditional ls e) (separator : Separator)
      (rest : DerivesArguments ls' es) :
      DerivesArguments (ls ++ .symbol separator.symbol :: ls') (e :: es)

end

/-! ## 2. Looser phrases -/

namespace Category

/-- How tightly phrases of the kind bind at least. -/
def rank : Category → Nat
  | conditional => 0
  | chain level => level.rank
  | unary => 4
  | power => 5
  | primary => 6

/-- The next looser kind. -/
def looser : Category → Category
  | conditional | chain .comparison => conditional
  | chain .additive => chain .comparison
  | chain .term => chain .additive
  | unary => chain .term
  | power => unary
  | primary => power

theorem rank_operands (level : Level) : level.operands.rank = level.rank + 1 := by
  cases level <;> rfl

theorem eq_of_rank {c c' : Category} (h : c.rank = c'.rank) : c = c' := by
  cases c with
  | chain level => cases level <;> cases c' with
    | chain level' => cases level' <;> simp_all [rank, Level.rank]
    | _ => simp_all [rank, Level.rank]
  | _ => cases c' with
    | chain level' => cases level' <;> simp_all [rank, Level.rank]
    | _ => simp_all [rank]

theorem rank_looser (c : Category) : c.looser.rank = c.rank - 1 := by
  cases c with
  | chain level => cases level <;> rfl
  | _ => rfl

end Category

theorem Derives.looser {c : Category} {ls : List Lexeme} {e : Expr} (h : Derives c ls e) :
    Derives c.looser ls e := by
  have alone (level : Level) (h : Derives level.operands ls e) : Derives (.chain level) ls e := by
    simpa using Derives.chain h .nil
  cases c with
  | conditional => exact h
  | chain level =>
    cases level with
    | comparison => exact .comparison h
    | additive => exact alone .comparison h
    | term => exact alone .additive h
  | unary => exact alone .term h
  | power => exact .unsigned h
  | primary => exact .unraised h

/-- A phrase is one of every kind that binds less tightly. -/
theorem Derives.loosen {c c' : Category} {ls : List Lexeme} {e : Expr} (h : Derives c ls e)
    (le : c'.rank ≤ c.rank) : Derives c' ls e := by
  obtain ⟨n, hn⟩ := Nat.exists_eq_add_of_le le
  induction n generalizing c with
  | zero => exact Category.eq_of_rank hn ▸ h
  | succ n ih =>
    have step := c.rank_looser
    exact ih h.looser (by omega) (by omega)

/-! ## 3. Derivations and forms -/

/-- The last operator of a chain joins all that stands in front of it. -/
theorem Continues.snoc {level : Level} {left e right : Expr} {ls rs : List Lexeme} {o : Operator}
    (ofLevel : o.level? = some level) (hr : Derives level.operands rs right) :
    Continues level left ls e →
      Continues level left (ls ++ .symbol (.operator o) :: rs) (.binary o e right)
  | .nil => by simpa using Continues.cons ofLevel hr .nil
  | .cons ofLevel' hr' rest => by simpa using Continues.cons ofLevel' hr' (rest.snoc ofLevel hr)

theorem Derives.snoc {level : Level} {left right : Expr} {ls rs : List Lexeme} {o : Operator}
    (ofLevel : o.level? = some level) (hl : Derives (.chain level) ls left)
    (hr : Derives level.operands rs right) :
    Derives (.chain level) (ls ++ .symbol (.operator o) :: rs) (.binary o left right) := by
  cases hl with
  | chain hf rest => simpa using Derives.chain hf (rest.snoc ofLevel hr)

/-- The tightest kind of phrases that a form belongs to. -/
def Form.category : Form → Category
  | .choice .. => .conditional
  | .binary o _ _ => (o.level?.map Category.chain).getD .power
  | .signed .. => .unary
  | _ => .primary

theorem Form.rank_category (f : Form) : f.category.rank = f.rank := by
  cases f with
  | binary o l r => cases o <;> rfl
  | _ => rfl

mutual

/-- A well formed form can be derived. -/
theorem Form.derives : (f : Form) → f.WellFormed → Derives f.category f.lexemes f.expr
  | .number x, _ => .number x
  | .text s, _ => .text s
  | .name n, _ => .name n
  | .paren f, wf => .paren ((f.derives wf).loosen (Nat.zero_le _))
  | .signed sign f, ⟨wf, rank⟩ => .signed sign ((f.derives wf).loosen (f.rank_category ▸ rank))
  | .binary o l r, ⟨wfl, wfr, ranks⟩ => by
    have hl := l.derives wfl
    have hr := r.derives wfr
    rw [Form.category]
    split at ranks
    · rename_i level ofLevel
      rw [ofLevel]
      exact .snoc ofLevel (hl.loosen (l.rank_category ▸ ranks.1))
        (hr.loosen (by rw [Category.rank_operands, r.rank_category]; exact ranks.2))
    · rename_i ofNone
      rw [ofNone]
      obtain rfl := Operator.level?_eq_none_iff.mp ofNone
      exact .raised (hl.loosen (l.rank_category ▸ ranks.1)) (hr.loosen (r.rank_category ▸ ranks.2))
  | .choice c a b, ⟨wfc, wfa, wfb, rank⟩ =>
    .choice ((c.derives wfc).loosen (c.rank_category ▸ rank))
      ((a.derives wfa).loosen (Nat.zero_le _)) ((b.derives wfb).loosen (Nat.zero_le _))
  | .emptyCall n, _ => .emptyCall n
  | .call n as, wf => .call n (as.derives wf)

/-- Well formed arguments can be derived. -/
theorem Arguments.derives : (as : Arguments) → as.WellFormed → DerivesArguments as.lexemes as.exprs
  | .last f, wf => .last ((f.derives wf).loosen (Nat.zero_le _))
  | .more f s as, ⟨wf, wfs⟩ => .more ((f.derives wf).loosen (Nat.zero_le _)) s (as.derives wfs)

end

mutual

/-- What can be derived is written as a form. -/
theorem Derives.exists_form {c : Category} {ls : List Lexeme} {e : Expr} : Derives c ls e →
    ∃ f : Form, f.WellFormed ∧ c.rank ≤ f.rank ∧ f.expr = e ∧ f.lexemes = ls
  | .comparison h => by
    obtain ⟨f, wf, -, expr, lexemes⟩ := h.exists_form
    exact ⟨f, wf, Nat.zero_le _, expr, lexemes⟩
  | .choice hc ha hb => by
    obtain ⟨fc, wfc, rank, rfl, rfl⟩ := hc.exists_form
    obtain ⟨fa, wfa, -, rfl, rfl⟩ := ha.exists_form
    obtain ⟨fb, wfb, -, rfl, rfl⟩ := hb.exists_form
    exact ⟨.choice fc fa fb, ⟨wfc, wfa, wfb, rank⟩, Nat.zero_le _, rfl, rfl⟩
  | .chain hf rest => by
    obtain ⟨f, wf, rank, expr, lexemes⟩ := hf.exists_form
    rw [Category.rank_operands] at rank
    exact lexemes ▸ rest.exists_form f wf (Nat.le_of_succ_le rank) expr
  | .signed sign h => by
    obtain ⟨f, wf, rank, rfl, rfl⟩ := h.exists_form
    exact ⟨.signed sign f, ⟨wf, rank⟩, Nat.le_refl _, rfl, rfl⟩
  | .unsigned h => by
    obtain ⟨f, wf, rank, expr, lexemes⟩ := h.exists_form
    exact ⟨f, wf, Nat.le_of_succ_le rank, expr, lexemes⟩
  | .raised hb hx => by
    obtain ⟨fb, wfb, rankb, rfl, rfl⟩ := hb.exists_form
    obtain ⟨fx, wfx, rankx, rfl, rfl⟩ := hx.exists_form
    exact ⟨.binary .power fb fx, ⟨wfb, wfx, rankb, rankx⟩, Nat.le_refl _, rfl, rfl⟩
  | .unraised h => by
    obtain ⟨f, wf, rank, expr, lexemes⟩ := h.exists_form
    exact ⟨f, wf, Nat.le_of_succ_le rank, expr, lexemes⟩
  | .number x => ⟨.number x, trivial, Nat.le_refl _, rfl, rfl⟩
  | .text s => ⟨.text s, trivial, Nat.le_refl _, rfl, rfl⟩
  | .name n => ⟨.name n, trivial, Nat.le_refl _, rfl, rfl⟩
  | .paren h => by
    obtain ⟨f, wf, -, rfl, rfl⟩ := h.exists_form
    exact ⟨.paren f, wf, Nat.le_refl _, rfl, rfl⟩
  | .emptyCall n => ⟨.emptyCall n, trivial, Nat.le_refl _, rfl, rfl⟩
  | .call n h => by
    obtain ⟨as, wf, rfl, rfl⟩ := h.exists_arguments
    exact ⟨.call n as, wf, Nat.le_refl _, rfl, rfl⟩

/-- What continues a form makes a longer form of it. -/
theorem Continues.exists_form {level : Level} {left e : Expr} {ls : List Lexeme} :
    Continues level left ls e → ∀ l : Form, l.WellFormed → level.rank ≤ l.rank → l.expr = left →
      ∃ f : Form, f.WellFormed ∧ level.rank ≤ f.rank ∧ f.expr = e ∧ f.lexemes = l.lexemes ++ ls
  | .nil, l, wf, rank, expr => ⟨l, wf, rank, expr, (List.append_nil _).symm⟩
  | .cons (o := o) ofLevel hr rest, l, wf, rank, expr => by
    obtain ⟨r, wfr, rankr, exprr, rfl⟩ := hr.exists_form
    rw [Category.rank_operands] at rankr
    have wfb : (Form.binary o l r).WellFormed := by
      simp only [Form.WellFormed, ofLevel]
      exact ⟨wf, wfr, rank, rankr⟩
    have rankb := Form.rank_binary_of_level ofLevel l r
    obtain ⟨f, wff, rankf, whole, lexemes⟩ :=
      rest.exists_form (.binary o l r) wfb (Nat.le_of_eq rankb.symm)
        (by rw [Form.expr, expr, exprr])
    exact ⟨f, wff, rankf, whole, by simp [lexemes, Form.lexemes]⟩

/-- Arguments that can be derived are written as such. -/
theorem DerivesArguments.exists_arguments {ls : List Lexeme} {es : List Expr} :
    DerivesArguments ls es → ∃ as : Arguments, as.WellFormed ∧ as.exprs = es ∧ as.lexemes = ls
  | .last h => by
    obtain ⟨f, wf, -, rfl, rfl⟩ := h.exists_form
    exact ⟨.last f, wf, rfl, rfl⟩
  | .more h s rest => by
    obtain ⟨f, wf, -, rfl, rfl⟩ := h.exists_form
    obtain ⟨as, wfs, rfl, rfl⟩ := rest.exists_arguments
    exact ⟨.more f s as, ⟨wf, wfs⟩, rfl, rfl⟩

end

/-- **Derivations are forms.** -/
theorem derives_iff {ls : List Lexeme} {e : Expr} :
    Derives .conditional ls e ↔ ∃ f : Form, f.WellFormed ∧ f.expr = e ∧ f.lexemes = ls := by
  constructor
  · intro h
    obtain ⟨f, wf, -, expr, lexemes⟩ := h.exists_form
    exact ⟨f, wf, expr, lexemes⟩
  · rintro ⟨f, wf, rfl, rfl⟩
    exact (f.derives wf).loosen (Nat.zero_le _)

/-! ## 4. Where the parser refuses -/

namespace Parser

/-- What is left of a row lacks what the fault names: a symbol that must stand first, or a token
that an operand may start with.  The fault shows the token that stands there instead, or the end. -/
inductive Lacks (rest : List Token) : SyntaxFault → Prop
  | symbol {wanted : Symbol} (h : after? wanted rest = none) :
      Lacks rest (.missing wanted rest.head?)
  | operand (h : ∀ t ∈ rest.head?, ¬ t.lexeme.Opens) : Lacks rest (.noOperand rest.head?)

/-- Somewhere in the row what is left lacks what the fault names. -/
def LacksIn (ts : List Token) (f : SyntaxFault) : Prop := ∃ rest, rest <:+ ts ∧ Lacks rest f

section

variable {ts rest : List Token} {f : SyntaxFault}

theorem LacksIn.of_suffix (h : LacksIn rest f) (suffix : rest <:+ ts) : LacksIn ts f := by
  obtain ⟨rest', suffix', lacks⟩ := h
  exact ⟨rest', suffix'.trans suffix, lacks⟩

theorem lacksIn_of_symbol {s : Symbol} {p : Nat} (other : s ≠ .openParen)
    (unsigned : signOf? (⟨.symbol s, p⟩ :: ts) = none) :
    LacksIn (⟨.symbol s, p⟩ :: ts) (.noOperand (some ⟨.symbol s, p⟩)) := by
  refine ⟨_, List.suffix_refl _, .operand fun t ht opens => ?_⟩
  obtain rfl : _ = t := by simpa using ht
  obtain rfl | ⟨sign, rfl⟩ : s = .openParen ∨ ∃ sign : Sign, s = .operator sign.operator := opens
  · exact other rfl
  · rw [signOf?_eq_some_iff.mpr ⟨p, rfl⟩] at unsigned
    cases unsigned

theorem Starts.suffix {ls : List Lexeme} (h : Starts ls ts rest) : rest <:+ ts := by
  obtain ⟨front, rfl, -⟩ := h
  exact List.suffix_append front rest

theorem Reads.suffix {k : Nat} {e : Expr} (h : Reads k ts e rest) : rest <:+ ts := by
  obtain ⟨f, -, -, -, start⟩ := h
  exact start.suffix

theorem suffix_of_after? {s : Symbol} (h : after? s ts = some rest) : rest <:+ ts := by
  obtain ⟨p, rfl⟩ := after?_eq_some_iff.mp h
  exact List.suffix_cons ..

end

mutual

theorem lacks_of_conditional (ts : List Token) {f : SyntaxFault}
    (h : conditional ts = .error f) : LacksIn ts f := by
  rw [conditional] at h
  split at h
  · rename_i fault
    cases h
    exact lacks_of_chain .comparison ts fault
  rename_i condition read
  have suffix : condition.rest <:+ ts := (reads_of_chain .comparison ts (by rw [read]; rfl)).suffix
  have fewer := condition.fewer
  split at h
  · cases h
  rename_i inA question
  have suffixA := (suffix_of_after? question).trans suffix
  have fewerA := length_of_after? question
  split at h
  · rename_i fault
    cases h
    exact (lacks_of_conditional inA fault).of_suffix suffixA
  rename_i whenTrue readA
  have suffix' : whenTrue.rest <:+ ts :=
    (reads_of_conditional inA (by rw [readA]; rfl)).suffix.trans suffixA
  have fewer' := whenTrue.fewer
  split at h
  · rename_i absent
    cases h
    exact ⟨_, suffix', .symbol absent⟩
  rename_i inB colon
  have fewerB := length_of_after? colon
  split at h
  · rename_i fault
    cases h
    exact (lacks_of_conditional inB fault).of_suffix ((suffix_of_after? colon).trans suffix')
  · cases h
termination_by (ts.length, 10)
decreasing_by
  · exact Prod.Lex.right _ (by decide)
  · exact Prod.Lex.left _ _ (by omega)
  · exact Prod.Lex.left _ _ (by omega)

theorem lacks_of_chain (level : Level) (ts : List Token) {f : SyntaxFault}
    (h : chain level ts = .error f) : LacksIn ts f := by
  rw [chain] at h
  split at h
  · rename_i fault
    cases h
    exact lacks_of_operand level ts fault
  rename_i first read
  have suffix : first.rest <:+ ts := (reads_of_operand level ts (by rw [read]; rfl)).suffix
  have fewer := first.fewer
  split at h
  · rename_i fault
    cases h
    exact (lacks_of_chainFrom level first.result first.rest fault).of_suffix suffix
  · cases h
termination_by (ts.length, level.height + 1)
decreasing_by
  · exact Prod.Lex.right _ (by omega)
  · exact Prod.Lex.left _ _ fewer

theorem lacks_of_chainFrom (level : Level) (left : Expr) (ts : List Token) {f : SyntaxFault}
    (h : chainFrom level left ts = .error f) : LacksIn ts f := by
  rw [chainFrom] at h
  split at h
  · cases h
  rename_i o r operator
  have fewer := length_of_operatorOf? operator
  obtain ⟨-, p, whole⟩ := operatorOf?_eq_some_iff.mp operator
  have suffix : r <:+ ts := whole ▸ List.suffix_cons ..
  split at h
  · rename_i fault
    cases h
    exact (lacks_of_operand level r fault).of_suffix suffix
  rename_i right read
  have suffix' : right.rest <:+ ts :=
    (reads_of_operand level r (by rw [read]; rfl)).suffix.trans suffix
  have fewer' := right.fewer
  split at h
  · rename_i fault
    cases h
    exact (lacks_of_chainFrom level _ right.rest fault).of_suffix suffix'
  · cases h
termination_by (ts.length, 0)
decreasing_by
  · exact Prod.Lex.left _ _ fewer
  · exact Prod.Lex.left _ _ (by omega)

theorem lacks_of_operand (level : Level) (ts : List Token) {f : SyntaxFault}
    (h : operand level ts = .error f) : LacksIn ts f := by
  rw [operand.eq_def] at h
  cases level with
  | comparison => exact lacks_of_chain .additive ts h
  | additive => exact lacks_of_chain .term ts h
  | term => exact lacks_of_unary ts h
termination_by (ts.length, level.height)
decreasing_by all_goals (subst_vars; exact Prod.Lex.right _ (by decide))

theorem lacks_of_unary (ts : List Token) {f : SyntaxFault}
    (h : unary ts = .error f) : LacksIn ts f := by
  rw [unary] at h
  split at h
  · rename_i sign r signed
    have fewer := length_of_signOf? signed
    obtain ⟨p, whole⟩ := signOf?_eq_some_iff.mp signed
    split at h
    · rename_i fault
      cases h
      exact (lacks_of_unary r fault).of_suffix (whole ▸ List.suffix_cons ..)
    · cases h
  · rename_i unsigned
    exact lacks_of_power ts unsigned h
termination_by (ts.length, 3)
decreasing_by
  · exact Prod.Lex.left _ _ fewer
  · exact Prod.Lex.right _ (by decide)

theorem lacks_of_power (ts : List Token) {f : SyntaxFault} (unsigned : signOf? ts = none)
    (h : power ts = .error f) : LacksIn ts f := by
  rw [power] at h
  split at h
  · rename_i fault
    cases h
    exact lacks_of_primary ts unsigned fault
  rename_i base read
  have suffix : base.rest <:+ ts := (reads_of_primary ts (by rw [read]; rfl)).suffix
  have fewer := base.fewer
  split at h
  · cases h
  rename_i r caret
  have fewer' := length_of_after? caret
  split at h
  · rename_i fault
    cases h
    exact (lacks_of_unary r fault).of_suffix ((suffix_of_after? caret).trans suffix)
  · cases h
termination_by (ts.length, 2)
decreasing_by
  · exact Prod.Lex.right _ (by decide)
  · exact Prod.Lex.left _ _ (by omega)

theorem lacks_of_primary (ts : List Token) {f : SyntaxFault} (unsigned : signOf? ts = none)
    (h : primary ts = .error f) : LacksIn ts f := by
  match ts with
  | ⟨.number _, _⟩ :: _ => simp [primary] at h
  | ⟨.text _, _⟩ :: _ => simp [primary] at h
  | ⟨.name n, p⟩ :: r =>
    rw [primary] at h
    split at h
    · cases h
    rename_i inside opens
    have fewer := length_of_after? opens
    have suffix := (suffix_of_after? opens).trans (List.suffix_cons ⟨.name n, p⟩ r)
    split at h
    · cases h
    split at h
    · rename_i fault
      cases h
      exact (lacks_of_arguments inside fault).of_suffix suffix
    rename_i args read
    obtain ⟨as, -, -, start⟩ := reads_of_arguments inside
      (show view (arguments inside) = some (args.result, args.rest) by rw [read]; rfl)
    have suffix' := start.suffix.trans suffix
    split at h
    · rename_i absent
      cases h
      exact ⟨_, suffix', .symbol absent⟩
    · cases h
  | ⟨.symbol .openParen, p⟩ :: inside =>
    rw [primary] at h
    split at h
    · rename_i fault
      cases h
      exact (lacks_of_conditional inside fault).of_suffix (List.suffix_cons ..)
    rename_i inner read
    have suffix : inner.rest <:+ _ :=
      (reads_of_conditional inside (by rw [read]; rfl)).suffix.trans
        (List.suffix_cons ⟨.symbol .openParen, p⟩ inside)
    split at h
    · rename_i absent
      cases h
      exact ⟨_, suffix, .symbol absent⟩
    · cases h
  | [] =>
    obtain rfl : .noOperand none = f := by simpa [primary] using h
    exact ⟨[], List.suffix_refl _, .operand (by simp)⟩
  | ⟨.symbol (.operator _), _⟩ :: _ | ⟨.symbol .closeParen, _⟩ :: _ | ⟨.symbol .comma, _⟩ :: _
  | ⟨.symbol .semicolon, _⟩ :: _ | ⟨.symbol .question, _⟩ :: _ | ⟨.symbol .colon, _⟩ :: _ =>
    obtain rfl : .noOperand (some _) = f := by simpa [primary] using h
    exact lacksIn_of_symbol nofun unsigned
termination_by (ts.length, 1)
decreasing_by all_goals exact Prod.Lex.left _ _ (by simp only [List.length_cons]; omega)

theorem lacks_of_arguments (ts : List Token) {f : SyntaxFault}
    (h : arguments ts = .error f) : LacksIn ts f := by
  rw [arguments] at h
  split at h
  · rename_i fault
    cases h
    exact lacks_of_conditional ts fault
  rename_i first read
  have suffix : first.rest <:+ ts := (reads_of_conditional ts (by rw [read]; rfl)).suffix
  have fewer := first.fewer
  split at h
  · cases h
  rename_i r separates
  have fewer' := length_of_afterSeparator? separates
  obtain ⟨s, p, whole⟩ := afterSeparator?_eq_some_iff.mp separates
  have suffix' : r <:+ first.rest := whole ▸ List.suffix_cons ..
  split at h
  · rename_i fault
    cases h
    exact (lacks_of_arguments r fault).of_suffix (suffix'.trans suffix)
  · cases h
termination_by (ts.length, 11)
decreasing_by
  · exact Prod.Lex.right _ (by decide)
  · exact Prod.Lex.left _ _ (by omega)

end

/-- The fault is about the place between what has been read of a row and the rest: there is
nothing at all, the rest lacks something, or what has been read is a formula and should have been the end. -/
inductive Refuses : List Token → List Token → SyntaxFault → Prop
  | empty : Refuses [] [] .empty
  | lacks {read rest f} (h : Lacks rest f) : Refuses read rest f
  | trailing {read t rest e} (h : Derives .conditional (read.map Token.lexeme) e) :
      Refuses read (t :: rest) (.trailing t)

/-- What the parser refuses, it refuses at a place of the row. -/
theorem refuses_of_parse {ts : List Token} {f : SyntaxFault} (h : parse ts = .error f) :
    ∃ read rest, ts = read ++ rest ∧ Refuses read rest f := by
  unfold parse at h
  split at h
  · rename_i empty
    cases h
    exact ⟨[], [], List.isEmpty_iff.mp empty, .empty⟩
  split at h
  · rename_i fault
    cases h
    obtain ⟨rest, ⟨read, rfl⟩, lacks⟩ := lacks_of_conditional ts fault
    exact ⟨read, rest, rfl, .lacks lacks⟩
  rename_i whole run
  split at h
  · cases h
  rename_i t rest behind
  cases h
  obtain ⟨f, wf, -, -, front, row, lexemes⟩ := reads_of_conditional ts
    (show view (conditional ts) = some (whole.result, whole.rest) by rw [run]; rfl)
  exact ⟨front, t :: rest, by rw [row, behind],
    .trailing (lexemes ▸ derives_iff.mpr ⟨f, wf, rfl, rfl⟩)⟩

theorem parse_eq_ok_iff_derives {ts : List Token} {e : Expr} :
    parse ts = .ok e ↔ Derives .conditional (ts.map Token.lexeme) e := by
  rw [parse_eq_ok_iff, derives_iff]
  simp only [eq_comm]

/-- **The parser decides the grammar.**  It reads a row of tokens as an expression exactly if the
row can be derived as a formula that stands for it, and then it stands for no other.  Any other row it
refuses, at a token of the row or at its end. -/
theorem parse_decides_grammar (ts : List Token) :
    (∀ e, parse ts = .ok e ↔ Derives .conditional (ts.map Token.lexeme) e) ∧
    ((∃! e, Derives .conditional (ts.map Token.lexeme) e) ∨
      (∀ e, ¬ Derives .conditional (ts.map Token.lexeme) e) ∧
        ∃ f read rest, parse ts = .error f ∧ ts = read ++ rest ∧ Refuses read rest f) := by
  refine ⟨fun e => parse_eq_ok_iff_derives, ?_⟩
  cases run : parse ts with
  | ok e =>
    refine .inl ⟨e, parse_eq_ok_iff_derives.mp run, fun e' derives => ?_⟩
    have run' := parse_eq_ok_iff_derives.mpr derives
    exact Except.ok.inj (run'.symm.trans run)
  | error f =>
    refine .inr ⟨fun e derives => ?_, ?_⟩
    · rw [parse_eq_ok_iff_derives.mpr derives] at run
      cases run
    · obtain ⟨read, rest, whole, refuses⟩ := refuses_of_parse run
      exact ⟨f, read, rest, rfl, whole, refuses⟩

end Parser

end Haulage
