/-
# The parser reads what is written

`parse_eq_ok_iff` says that the parser accepts exactly the lexemes of well formed forms, and makes of
them the expressions that the forms stand for.  `parsed_eq_ok_iff` says the same of texts.

Every reader of the parser is first stated by what it hands back (`view`), without the proofs that it
carries along.  One direction follows the readers, the other the forms.  In the second the tokens
behind a form matter: a reader goes on where a token can join what it has read.  The rank at which
a lexeme does so is `joins?`, and `Stops k` says that the tokens behind join nothing of rank `k`
or above.
-/
import Haulage.Proofs.Formula.Form
import Haulage.Formula.Nesting

namespace Haulage

namespace Parser

/-! ## 1. What readers hand back -/

/-- The result and the unused tokens, if the reader succeeds. -/
def view {α : Type} {bound : Nat} :
    Except SyntaxFault (Parsed α bound) → Option (α × List Token)
  | .ok p => some (p.result, p.rest)
  | .error _ => none

variable {α : Type} {bound : Nat}

@[simp] theorem view_ok (p : Parsed α bound) : view (.ok p) = some (p.result, p.rest) := rfl

@[simp] theorem view_error (f : SyntaxFault) :
    view (.error f : Except SyntaxFault (Parsed α bound)) = none := rfl

theorem length_of_view {r : Except SyntaxFault (Parsed α bound)} {x : α} {rest : List Token}
    (h : view r = some (x, rest)) : rest.length < bound := by
  cases r with
  | error f => cases h
  | ok p =>
    cases h
    exact p.fewer

theorem view_conditional (ts : List Token) :
    view (conditional ts) = (view (chain .comparison ts)).bind fun (c, r) =>
      match after? .question r with
      | none => some (c, r)
      | some r => (view (conditional r)).bind fun (a, r) =>
        (after? .colon r).bind fun r =>
          (view (conditional r)).map fun (b, r) => (.conditional c a b, r) := by
  rw [conditional]
  cases chain .comparison ts with
  | error f => rfl
  | ok condition =>
    simp only [view_ok, Option.bind_some]
    split
    · rename_i absent
      simp only [absent]
      rfl
    · rename_i r present
      simp only [present]
      cases conditional r with
      | error f => rfl
      | ok whenTrue =>
        simp only [view_ok, Option.bind_some]
        split
        · rename_i absent
          simp only [absent]
          rfl
        · rename_i r present
          simp only [present, Option.bind_some]
          cases conditional r <;> rfl

theorem view_chain (level : Level) (ts : List Token) :
    view (chain level ts) = (view (operand level ts)).bind fun (e, r) =>
      view (chainFrom level e r) := by
  rw [chain]
  cases operand level ts with
  | error f => rfl
  | ok first =>
    simp only [view_ok, Option.bind_some]
    cases chainFrom level first.result first.rest <;> rfl

theorem view_chainFrom (level : Level) (left : Expr) (ts : List Token) :
    view (chainFrom level left ts) =
      match operatorOf? level ts with
      | none => some (left, ts)
      | some (o, r) => (view (operand level r)).bind fun (right, r) =>
        view (chainFrom level (.binary o left right) r) := by
  rw [chainFrom]
  split
  · rename_i absent
    simp only [absent]
    rfl
  · rename_i o r present
    simp only [present]
    cases operand level r with
    | error f => rfl
    | ok right =>
      simp only [view_ok, Option.bind_some]
      cases chainFrom level (.binary o left right.result) right.rest <;> rfl

theorem operand_comparison : operand .comparison = chain .additive :=
  funext fun ts => by rw [operand.eq_def]

theorem operand_additive : operand .additive = chain .term :=
  funext fun ts => by rw [operand.eq_def]

theorem operand_term : operand .term = unary :=
  funext fun ts => by rw [operand.eq_def]

theorem view_unary (ts : List Token) :
    view (unary ts) =
      match signOf? ts with
      | none => view (power ts)
      | some (sign, r) => (view (unary r)).map fun (e, r) => (.signed sign e, r) := by
  rw [unary]
  split
  · rename_i sign r present
    simp only [present]
    cases unary r <;> rfl
  · rename_i absent
    simp only [absent]

theorem view_power (ts : List Token) :
    view (power ts) = (view (primary ts)).bind fun (base, r) =>
      match after? (.operator .power) r with
      | none => some (base, r)
      | some r => (view (unary r)).map fun (exponent, r) => (.binary .power base exponent, r) := by
  rw [power]
  cases primary ts with
  | error f => rfl
  | ok base =>
    simp only [view_ok, Option.bind_some]
    split
    · rename_i absent
      simp only [absent]
      rfl
    · rename_i r present
      simp only [present]
      cases unary r <;> rfl

theorem view_arguments (ts : List Token) :
    view (arguments ts) = (view (conditional ts)).bind fun (e, r) =>
      match afterSeparator? r with
      | none => some ([e], r)
      | some r => (view (arguments r)).map fun (es, r) => (e :: es, r) := by
  rw [arguments]
  cases conditional ts with
  | error f => rfl
  | ok first =>
    simp only [view_ok, Option.bind_some]
    split
    · rename_i absent
      simp only [absent]
      rfl
    · rename_i r present
      simp only [present]
      cases arguments r <;> rfl

theorem view_primary_name (n : Text) (p : Nat) (ts : List Token) :
    view (primary (⟨.name n, p⟩ :: ts)) =
      match after? .openParen ts with
      | none => some (.name n, ts)
      | some r =>
        match after? .closeParen r with
        | some r => some (.call n [], r)
        | none => (view (arguments r)).bind fun (es, r) =>
          (after? .closeParen r).map fun r => (.call n es, r) := by
  rw [primary]
  split
  · rename_i absent
    simp only [absent]
    rfl
  · rename_i r present
    simp only [present]
    split
    · rename_i r present
      simp only [present]
      rfl
    · rename_i absent
      simp only [absent]
      cases arguments r with
      | error f => rfl
      | ok args =>
        simp only [view_ok, Option.bind_some]
        split
        · rename_i absent
          simp only [absent]
          rfl
        · rename_i r present
          simp only [present]
          rfl

theorem view_primary_paren (p : Nat) (ts : List Token) :
    view (primary (⟨.symbol .openParen, p⟩ :: ts)) =
      (view (conditional ts)).bind fun (e, r) =>
        (after? .closeParen r).map fun r => (e, r) := by
  rw [primary]
  cases conditional ts with
  | error f => rfl
  | ok inner =>
    simp only [view_ok, Option.bind_some]
    split
    · rename_i absent
      simp only [absent]
      rfl
    · rename_i r present
      simp only [present]
      rfl

/-! ## 2. Tokens at the front -/

theorem after?_eq_some_iff {s : Symbol} {ts r : List Token} :
    after? s ts = some r ↔ ∃ p, ts = ⟨.symbol s, p⟩ :: r := by
  unfold after?
  split
  · rename_i s' p rest
    by_cases h : s' = s <;> simp [h]
  · rename_i other
    simp only [reduceCtorEq, false_iff, not_exists]
    exact fun p h => other _ _ _ h

theorem operatorOf?_eq_some_iff {level : Level} {ts r : List Token} {o : Operator} :
    operatorOf? level ts = some (o, r) ↔
      o.level? = some level ∧ ∃ p, ts = ⟨.symbol (.operator o), p⟩ :: r := by
  unfold operatorOf?
  split
  · rename_i o' p rest
    by_cases h : o'.level? = some level
    · simp only [h, if_true, Option.some.injEq, Prod.mk.injEq, List.cons.injEq, Token.mk.injEq,
        Lexeme.symbol.injEq, Symbol.operator.injEq]
      constructor
      · rintro ⟨rfl, rfl⟩
        exact ⟨h, p, ⟨rfl, rfl⟩, rfl⟩
      · rintro ⟨-, _, ⟨rfl, -⟩, rfl⟩
        exact ⟨rfl, rfl⟩
    · simp only [h, if_false, reduceCtorEq, List.cons.injEq, Token.mk.injEq, Lexeme.symbol.injEq,
        Symbol.operator.injEq, false_iff, not_and, not_exists]
      rintro h' _ ⟨rfl, -⟩
      exact absurd h' h
  · rename_i other
    simp only [reduceCtorEq, false_iff, not_and, not_exists]
    exact fun _ p h => other _ _ _ h

theorem sign?_eq_some_iff {o : Operator} {s : Sign} : o.sign? = some s ↔ o = s.operator := by
  cases o <;> cases s <;> simp [Operator.sign?, Sign.operator]

theorem signOf?_eq_some_iff {ts r : List Token} {s : Sign} :
    signOf? ts = some (s, r) ↔ ∃ p, ts = ⟨.symbol (.operator s.operator), p⟩ :: r := by
  unfold signOf?
  split
  · rename_i o p rest
    simp only [Option.map_eq_some_iff, sign?_eq_some_iff, Prod.mk.injEq, List.cons.injEq,
      Token.mk.injEq, Lexeme.symbol.injEq, Symbol.operator.injEq]
    constructor
    · rintro ⟨_, rfl, rfl, rfl⟩
      exact ⟨p, ⟨rfl, rfl⟩, rfl⟩
    · rintro ⟨_, ⟨rfl, -⟩, rfl⟩
      exact ⟨s, rfl, rfl, rfl⟩
  · rename_i other
    simp only [reduceCtorEq, false_iff, not_exists]
    exact fun p h => other _ _ _ h

theorem afterSeparator?_eq_some_iff {ts r : List Token} :
    afterSeparator? ts = some r ↔ ∃ (s : Separator) (p : Nat), ts = ⟨.symbol s.symbol, p⟩ :: r := by
  simp only [afterSeparator?, Option.or_eq_some_iff, after?_eq_some_iff]
  constructor
  · rintro (⟨p, rfl⟩ | ⟨-, p, rfl⟩)
    · exact ⟨.comma, p, rfl⟩
    · exact ⟨.semicolon, p, rfl⟩
  · rintro ⟨s, p, rfl⟩
    cases s with
    | comma => exact .inl ⟨p, rfl⟩
    | semicolon => exact .inr ⟨rfl, p, rfl⟩

/-- The tokens start with the form, and others follow. -/
def Starts (ls : List Lexeme) (ts rest : List Token) : Prop :=
  ∃ front, ts = front ++ rest ∧ front.map Token.lexeme = ls

namespace Starts

variable {ls ls' : List Lexeme} {ts ts' rest : List Token}

theorem nil (ts : List Token) : Starts [] ts ts := ⟨[], rfl, rfl⟩

theorem append (h : Starts ls ts ts') (h' : Starts ls' ts' rest) : Starts (ls ++ ls') ts rest := by
  obtain ⟨front, rfl, rfl⟩ := h
  obtain ⟨front', rfl, rfl⟩ := h'
  exact ⟨front ++ front', by simp, by simp⟩

theorem cons {l : Lexeme} {p : Nat} (h : Starts ls ts rest) :
    Starts (l :: ls) (⟨l, p⟩ :: ts) rest := by
  obtain ⟨front, rfl, rfl⟩ := h
  exact ⟨⟨l, p⟩ :: front, rfl, rfl⟩

theorem uncons {l : Lexeme} (h : Starts (l :: ls) ts rest) :
    ∃ p ts', ts = ⟨l, p⟩ :: ts' ∧ Starts ls ts' rest := by
  obtain ⟨front, rfl, whole⟩ := h
  obtain ⟨t, front, rfl, rfl, rfl⟩ := List.map_eq_cons_iff.mp whole
  exact ⟨t.position, front ++ rest, rfl, front, rfl, rfl⟩

theorem single {l : Lexeme} (h : Starts [l] ts rest) : ∃ p, ts = ⟨l, p⟩ :: rest := by
  obtain ⟨p, ts', rfl, front, rfl, none⟩ := h.uncons
  obtain rfl := List.map_eq_nil_iff.mp none
  exact ⟨p, rfl⟩

theorem split (h : Starts (ls ++ ls') ts rest) : ∃ ts', Starts ls ts ts' ∧ Starts ls' ts' rest := by
  obtain ⟨front, rfl, whole⟩ := h
  obtain ⟨x, y, rfl, rfl, rfl⟩ := List.map_eq_append_iff.mp whole
  exact ⟨y ++ rest, ⟨x, List.append_assoc .., rfl⟩, ⟨y, rfl, rfl⟩⟩

end Starts

/-! ## 3. Whatever is read was written -/

/-- The tokens start with a form of at least the rank that stands for the expression. -/
def Reads (k : Nat) (ts : List Token) (e : Expr) (rest : List Token) : Prop :=
  ∃ f : Form, f.WellFormed ∧ k ≤ f.rank ∧ f.expr = e ∧ Starts f.lexemes ts rest

mutual

theorem reads_of_conditional (ts : List Token) {e : Expr} {rest : List Token}
    (h : view (conditional ts) = some (e, rest)) : Reads 0 ts e rest := by
  rw [view_conditional] at h
  obtain ⟨⟨c, afterC⟩, hc, h⟩ := Option.bind_eq_some_iff.mp h
  obtain ⟨fc, wfc, rankc, rfl, startc⟩ := reads_of_chain .comparison ts hc
  have fewerC := length_of_view hc
  dsimp only at h
  split at h
  · cases h
    exact ⟨fc, wfc, Nat.zero_le _, rfl, startc⟩
  · rename_i inA question
    have fewerQ : inA.length < afterC.length := length_of_after? question
    obtain ⟨⟨a, afterA⟩, ha, h⟩ := Option.bind_eq_some_iff.mp h
    have fewerA := length_of_view ha
    obtain ⟨inB, colon, h⟩ := Option.bind_eq_some_iff.mp h
    have fewerL : inB.length < afterA.length := length_of_after? colon
    obtain ⟨⟨b, afterB⟩, hb, h⟩ := Option.map_eq_some_iff.mp h
    obtain ⟨fa, wfa, -, rfl, starta⟩ := reads_of_conditional inA ha
    obtain ⟨fb, wfb, -, rfl, startb⟩ := reads_of_conditional inB hb
    obtain ⟨p, rfl⟩ := after?_eq_some_iff.mp question
    obtain ⟨q, rfl⟩ := after?_eq_some_iff.mp colon
    cases h
    exact ⟨.choice fc fa fb, ⟨wfc, wfa, wfb, rankc⟩, Nat.zero_le _, rfl,
      startc.append (starta.append startb.cons).cons⟩
termination_by (ts.length, 10)
decreasing_by
  · exact Prod.Lex.right _ (by decide)
  · exact Prod.Lex.left _ _ (Nat.lt_trans fewerQ fewerC)
  · exact Prod.Lex.left _ _ (by omega)

theorem reads_of_chain (level : Level) (ts : List Token) {e : Expr} {rest : List Token}
    (h : view (chain level ts) = some (e, rest)) : Reads level.rank ts e rest := by
  rw [view_chain] at h
  obtain ⟨⟨first, r⟩, hf, h⟩ := Option.bind_eq_some_iff.mp h
  obtain ⟨f, wf, rank, rfl, start⟩ := reads_of_operand level ts hf
  have := length_of_view hf
  obtain ⟨g, ls, wfg, rankg, rfl, whole, startg⟩ :=
    reads_of_chainFrom level f wf (Nat.le_of_lt rank) r h
  exact ⟨g, wfg, rankg, rfl, whole ▸ start.append startg⟩
termination_by (ts.length, level.height + 1)
decreasing_by
  · exact Prod.Lex.right _ (by omega)
  · exact Prod.Lex.left _ _ this

/-- What a chain goes on to read makes a longer form of what was read before. -/
theorem reads_of_chainFrom (level : Level) (left : Form) (wf : left.WellFormed)
    (rank : level.rank ≤ left.rank) (ts : List Token) {e : Expr} {rest : List Token}
    (h : view (chainFrom level left.expr ts) = some (e, rest)) :
    ∃ (f : Form) (ls : List Lexeme), f.WellFormed ∧ level.rank ≤ f.rank ∧ f.expr = e ∧
      f.lexemes = left.lexemes ++ ls ∧ Starts ls ts rest := by
  rw [view_chainFrom] at h
  split at h
  · cases h
    exact ⟨left, [], wf, rank, rfl, (List.append_nil _).symm, .nil _⟩
  · rename_i o r operator
    have fewer := length_of_operatorOf? operator
    obtain ⟨ofLevel, p, whole⟩ := operatorOf?_eq_some_iff.mp operator
    obtain ⟨⟨right, r'⟩, hr, h⟩ := Option.bind_eq_some_iff.mp h
    have fewer' := length_of_view hr
    obtain ⟨fr, wfr, rankr, rfl, startr⟩ := reads_of_operand level r hr
    have wfb : (Form.binary o left fr).WellFormed := by
      simp only [Form.WellFormed, ofLevel]
      exact ⟨wf, wfr, rank, rankr⟩
    have rankb := Form.rank_binary_of_level ofLevel left fr
    obtain ⟨f, ls, wff, rankf, rfl, lexemes, startf⟩ :=
      reads_of_chainFrom level (.binary o left fr) wfb (Nat.le_of_eq rankb.symm) r' h
    exact ⟨f, .symbol (.operator o) :: (fr.lexemes ++ ls), wff, rankf, rfl,
      by simp [lexemes, Form.lexemes], whole ▸ (startr.append startf).cons⟩
termination_by (ts.length, 0)
decreasing_by
  · exact Prod.Lex.left _ _ fewer
  · exact Prod.Lex.left _ _ (Nat.lt_trans fewer' fewer)

theorem reads_of_operand (level : Level) (ts : List Token) {e : Expr} {rest : List Token}
    (h : view (operand level ts) = some (e, rest)) : Reads (level.rank + 1) ts e rest := by
  rw [operand.eq_def] at h
  cases level with
  | comparison => exact reads_of_chain .additive ts h
  | additive => exact reads_of_chain .term ts h
  | term => exact reads_of_unary ts h
termination_by (ts.length, level.height)
decreasing_by all_goals (subst_vars; exact Prod.Lex.right _ (by decide))

theorem reads_of_unary (ts : List Token) {e : Expr} {rest : List Token}
    (h : view (unary ts) = some (e, rest)) : Reads 4 ts e rest := by
  rw [view_unary] at h
  split at h
  · obtain ⟨f, wf, rank, rfl, start⟩ := reads_of_power ts h
    exact ⟨f, wf, by omega, rfl, start⟩
  · rename_i sign r signed
    have fewer := length_of_signOf? signed
    obtain ⟨p, whole⟩ := signOf?_eq_some_iff.mp signed
    obtain ⟨⟨inner, r'⟩, hi, h⟩ := Option.map_eq_some_iff.mp h
    cases h
    obtain ⟨f, wf, rank, rfl, start⟩ := reads_of_unary r hi
    exact ⟨.signed sign f, ⟨wf, rank⟩, Nat.le_refl _, rfl, whole ▸ start.cons⟩
termination_by (ts.length, 3)
decreasing_by
  · exact Prod.Lex.right _ (by decide)
  · exact Prod.Lex.left _ _ fewer

theorem reads_of_power (ts : List Token) {e : Expr} {rest : List Token}
    (h : view (power ts) = some (e, rest)) : Reads 5 ts e rest := by
  rw [view_power] at h
  obtain ⟨⟨base, r⟩, hb, h⟩ := Option.bind_eq_some_iff.mp h
  have fewer := length_of_view hb
  obtain ⟨f, wf, rank, rfl, start⟩ := reads_of_primary ts hb
  dsimp only at h
  split at h
  · cases h
    exact ⟨f, wf, by omega, rfl, start⟩
  · rename_i r' caret
    have fewer' := length_of_after? caret
    obtain ⟨p, rfl⟩ := after?_eq_some_iff.mp caret
    obtain ⟨⟨exponent, r⟩, he, h⟩ := Option.map_eq_some_iff.mp h
    cases h
    obtain ⟨g, wfg, rankg, rfl, startg⟩ := reads_of_unary r' he
    exact ⟨.binary .power f g, ⟨wf, wfg, rank, rankg⟩, Nat.le_refl _, rfl,
      start.append startg.cons⟩
termination_by (ts.length, 2)
decreasing_by
  · exact Prod.Lex.right _ (by decide)
  · exact Prod.Lex.left _ _ (Nat.lt_trans fewer' fewer)

theorem reads_of_primary (ts : List Token) {e : Expr} {rest : List Token}
    (h : view (primary ts) = some (e, rest)) : Reads 6 ts e rest := by
  match ts with
  | ⟨.number x, p⟩ :: r =>
    rw [primary] at h
    cases h
    exact ⟨.number x, trivial, Nat.le_refl _, rfl, (Starts.nil _).cons⟩
  | ⟨.text s, p⟩ :: r =>
    rw [primary] at h
    cases h
    exact ⟨.text s, trivial, Nat.le_refl _, rfl, (Starts.nil _).cons⟩
  | ⟨.name n, p⟩ :: r =>
    rw [view_primary_name] at h
    split at h
    · cases h
      exact ⟨.name n, trivial, Nat.le_refl _, rfl, (Starts.nil _).cons⟩
    rename_i inside opens
    have fewer := length_of_after? opens
    obtain ⟨q, rfl⟩ := after?_eq_some_iff.mp opens
    split at h
    · rename_i r' closes
      obtain ⟨q', rfl⟩ := after?_eq_some_iff.mp closes
      cases h
      exact ⟨.emptyCall n, trivial, Nat.le_refl _, rfl, (Starts.nil _).cons.cons.cons⟩
    · obtain ⟨⟨es, r⟩, ha, h⟩ := Option.bind_eq_some_iff.mp h
      obtain ⟨r', closes, h⟩ := Option.map_eq_some_iff.mp h
      obtain ⟨q', rfl⟩ := after?_eq_some_iff.mp closes
      cases h
      obtain ⟨as, wf, rfl, start⟩ := reads_of_arguments inside ha
      exact ⟨.call n as, wf, Nat.le_refl _, rfl, (start.append (Starts.nil _).cons).cons.cons⟩
  | ⟨.symbol .openParen, p⟩ :: inside =>
    rw [view_primary_paren] at h
    obtain ⟨⟨inner, r⟩, hi, h⟩ := Option.bind_eq_some_iff.mp h
    obtain ⟨r', closes, h⟩ := Option.map_eq_some_iff.mp h
    obtain ⟨q, rfl⟩ := after?_eq_some_iff.mp closes
    cases h
    obtain ⟨f, wf, -, rfl, start⟩ := reads_of_conditional inside hi
    exact ⟨.paren f, wf, Nat.le_refl _, rfl, (start.append (Starts.nil _).cons).cons⟩
  | [] => simp [primary] at h
  | ⟨.symbol (.operator _), _⟩ :: _ => simp [primary] at h
  | ⟨.symbol .closeParen, _⟩ :: _ => simp [primary] at h
  | ⟨.symbol .comma, _⟩ :: _ => simp [primary] at h
  | ⟨.symbol .semicolon, _⟩ :: _ => simp [primary] at h
  | ⟨.symbol .question, _⟩ :: _ => simp [primary] at h
  | ⟨.symbol .colon, _⟩ :: _ => simp [primary] at h
termination_by (ts.length, 1)
decreasing_by all_goals exact Prod.Lex.left _ _ (by simp only [List.length_cons]; omega)

theorem reads_of_arguments (ts : List Token) {es : List Expr} {rest : List Token}
    (h : view (arguments ts) = some (es, rest)) :
    ∃ as : Arguments, as.WellFormed ∧ as.exprs = es ∧ Starts as.lexemes ts rest := by
  rw [view_arguments] at h
  obtain ⟨⟨e, r⟩, he, h⟩ := Option.bind_eq_some_iff.mp h
  have fewer := length_of_view he
  obtain ⟨f, wf, -, rfl, start⟩ := reads_of_conditional ts he
  dsimp only at h
  split at h
  · cases h
    exact ⟨.last f, wf, rfl, start⟩
  · rename_i r' separates
    have fewer' := length_of_afterSeparator? separates
    obtain ⟨s, p, rfl⟩ := afterSeparator?_eq_some_iff.mp separates
    obtain ⟨⟨es, r⟩, hes, h⟩ := Option.map_eq_some_iff.mp h
    cases h
    obtain ⟨as, wfs, rfl, starts⟩ := reads_of_arguments r' hes
    exact ⟨.more f s as, ⟨wf, wfs⟩, rfl, start.append starts.cons⟩
termination_by (ts.length, 11)
decreasing_by
  · exact Prod.Lex.right _ (by decide)
  · exact Prod.Lex.left _ _ (Nat.lt_trans fewer' fewer)

end

/-! ## 4. Where reading stops -/

/-- The rank at which a lexeme joins what was read in front of it, if it does. -/
def joins? : Lexeme → Option Nat
  | .symbol .openParen => some 6
  | .symbol (.operator o) => some ((o.level?.map Level.rank).getD 5)
  | .symbol .question => some 0
  | _ => none

/-- The tokens join nothing of at least the rank. -/
def Stops (k : Nat) (rest : List Token) : Prop :=
  ∀ t ∈ rest.head?, ∀ n ∈ joins? t.lexeme, n < k

namespace Stops

variable {k k' : Nat} {rest : List Token}

theorem nil : Stops k [] := fun _ h => nomatch h

theorem mono (h : Stops k rest) (le : k ≤ k') : Stops k' rest :=
  fun t ht n hn => Nat.lt_of_lt_of_le (h t ht n hn) le

theorem symbol {s : Symbol} {n p : Nat} (h : joins? (.symbol s) = some n) (lt : n < k) :
    Stops k (⟨.symbol s, p⟩ :: rest) := fun t ht m hm => by
  obtain rfl : _ = t := by simpa using ht
  obtain rfl : n = m := by simpa [h] using hm
  exact lt

theorem apart {s : Symbol} {p : Nat} (h : joins? (.symbol s) = none) :
    Stops k (⟨.symbol s, p⟩ :: rest) := fun t ht m hm => by
  obtain rfl : _ = t := by simpa using ht
  simp [h] at hm

/-- No symbol follows that joins at the rank. -/
theorem after? {s : Symbol} {n : Nat} (h : Stops k rest) (joins : joins? (.symbol s) = some n)
    (le : k ≤ n) : after? s rest = none := by
  refine Option.eq_none_iff_forall_not_mem.mpr fun r hr => ?_
  obtain ⟨p, rfl⟩ := after?_eq_some_iff.mp hr
  have := h _ rfl n joins
  omega

theorem operatorOf? {level : Level} (h : Stops k rest) (le : k ≤ level.rank) :
    operatorOf? level rest = none := by
  refine Option.eq_none_iff_forall_not_mem.mpr fun ⟨o, r⟩ hr => ?_
  obtain ⟨ofLevel, p, rfl⟩ := operatorOf?_eq_some_iff.mp hr
  have := h _ rfl level.rank (by simp [joins?, ofLevel])
  omega

end Stops

theorem view_chainFrom_of_stops {level : Level} {rest : List Token} (e : Expr)
    (h : Stops level.rank rest) : view (chainFrom level e rest) = some (e, rest) := by
  rw [view_chainFrom, h.operatorOf? (Nat.le_refl _)]

/-! ## 5. Whatever is written is read -/

/-- The reader makes of the form the expression that it stands for, unless the tokens behind it join
something of the rank. -/
def Understands (reader : (ts : List Token) → Except SyntaxFault (Parsed Expr ts.length)) (k : Nat)
    (f : Form) : Prop :=
  ∀ ts rest, Starts f.lexemes ts rest → Stops k rest → view (reader ts) = some (f.expr, rest)

/-- A chain of the level reads the form and goes on behind it. -/
def GoesOn (level : Level) (f : Form) : Prop :=
  ∀ ts rest, Starts f.lexemes ts rest → Stops (level.rank + 1) rest →
    view (chain level ts) = view (chainFrom level f.expr rest)

/-- Each reader reads the forms of its rank. -/
structure Complete (f : Form) : Prop where
  conditional : Understands conditional 0 f
  chain : ∀ level : Level, level.rank ≤ f.rank → GoesOn level f
  unary : 4 ≤ f.rank → Understands unary 4 f
  power : 5 ≤ f.rank → Understands power 4 f
  primary : 6 ≤ f.rank → Understands primary 6 f

theorem GoesOn.of_operand {level : Level} {f : Form}
    (h : Understands (operand level) (level.rank + 1) f) : GoesOn level f := by
  intro ts rest start stops
  rw [view_chain, h ts rest start stops]
  rfl

theorem GoesOn.understands {level : Level} {f : Form} (h : GoesOn level f) :
    Understands (chain level) level.rank f := by
  intro ts rest start stops
  rw [h ts rest start (stops.mono (Nat.le_succ _)), view_chainFrom_of_stops _ stops]

theorem understands_operand {level : Level} {f : Form} (complete : Complete f)
    (rank : level.rank < f.rank) : Understands (operand level) (level.rank + 1) f := by
  cases level with
  | comparison => exact operand_comparison ▸ (complete.chain .additive rank).understands
  | additive => exact operand_additive ▸ (complete.chain .term rank).understands
  | term => exact operand_term ▸ complete.unary rank

theorem understands_conditional {f : Form} (h : GoesOn .comparison f) :
    Understands conditional 0 f := by
  intro ts rest start stops
  rw [view_conditional, h.understands ts rest start (stops.mono (Nat.zero_le _))]
  simp only [Option.bind_some, stops.after? (s := .question) rfl (Nat.zero_le _)]

/-- What a chain of additions reads, a chain of comparisons reads too. -/
theorem GoesOn.comparison {f : Form} (h : GoesOn .additive f) : GoesOn .comparison f :=
  .of_operand (operand_comparison ▸ h.understands)

/-- What a chain of terms reads, a chain of additions reads too. -/
theorem GoesOn.additive {f : Form} (h : GoesOn .term f) : GoesOn .additive f :=
  .of_operand (operand_additive ▸ h.understands)

theorem complete_of_chain {level : Level} {f : Form} (rank : f.rank = level.rank)
    (h : GoesOn level f) : Complete f := by
  have looser (l : Level) (le : l.rank ≤ level.rank) : GoesOn l f := by
    cases level <;> cases l <;>
      first
      | exact h
      | exact h.comparison
      | exact h.additive
      | exact h.additive.comparison
      | exact absurd le (by decide)
  have bound : f.rank ≤ 3 := by
    rw [rank]
    cases level <;> decide
  exact
    { conditional := understands_conditional (looser .comparison (by cases level <;> decide))
      chain := fun l le => looser l (rank ▸ le)
      unary := fun _ => by omega
      power := fun _ => by omega
      primary := fun _ => by omega }

theorem complete_of_unary {f : Form} (unary : Understands unary 4 f)
    (power : 5 ≤ f.rank → Understands power 4 f)
    (primary : 6 ≤ f.rank → Understands primary 6 f) : Complete f := by
  have term : GoesOn .term f := .of_operand (operand_term ▸ unary)
  exact
    { conditional := understands_conditional term.additive.comparison
      chain := fun level _ => by
        cases level
        · exact term.additive.comparison
        · exact term.additive
        · exact term
      unary := fun _ => unary
      power
      primary }

/-- A form that binds as tightly as a power starts with no sign. -/
theorem signOf?_of_starts {ls : List Lexeme} {ts rest : List Token} (h : Starts ls ts rest)
    (head : ∃ l, ls.head? = some l ∧ ∀ sign : Sign, l ≠ .symbol (.operator sign.operator)) :
    signOf? ts = none := by
  refine Option.eq_none_iff_forall_not_mem.mpr fun ⟨sign, r⟩ hr => ?_
  obtain ⟨p, rfl⟩ := signOf?_eq_some_iff.mp hr
  obtain ⟨l, first, other⟩ := head
  obtain ⟨front, whole, rfl⟩ := h
  cases front with
  | nil => cases first
  | cons t front =>
    obtain ⟨rfl, -⟩ := by simpa using whole
    exact other sign (Option.some.inj first).symm

theorem complete_of_power {f : Form} (power : Understands power 4 f)
    (primary : 6 ≤ f.rank → Understands primary 6 f)
    (head : ∃ l, f.lexemes.head? = some l ∧
      ∀ sign : Sign, l ≠ .symbol (.operator sign.operator)) : Complete f :=
  complete_of_unary
    (fun ts rest start stops => by
      rw [view_unary, signOf?_of_starts start head]
      exact power ts rest start stops)
    (fun _ => power) primary

theorem complete_of_primary {f : Form} (primary : Understands primary 6 f)
    (head : ∃ l, f.lexemes.head? = some l ∧
      ∀ sign : Sign, l ≠ .symbol (.operator sign.operator)) : Complete f :=
  complete_of_power
    (fun ts rest start stops => by
      rw [view_power, primary ts rest start (stops.mono (by decide))]
      simp only [Option.bind_some, stops.after? (s := .operator .power) rfl (by decide)])
    (fun _ => primary) head

/-- A primary starts with no sign. -/
theorem head_of_rank {f : Form} (rank : 6 ≤ f.rank) : ∃ l, f.lexemes.head? = some l ∧
    ∀ sign : Sign, l ≠ .symbol (.operator sign.operator) := by
  cases f with
  | paren f => exact ⟨_, rfl, fun sign => by simp⟩
  | binary o l r => cases o <;> exact absurd rank (by simp [Form.rank, Operator.level?, Level.rank])
  | signed | choice => exact absurd rank (by simp [Form.rank])
  | _ => exact ⟨_, rfl, fun sign => by simp⟩

/-- Arguments start with no closing parenthesis. -/
theorem after?_closeParen_of_starts {ls : List Lexeme} {ts rest : List Token}
    (phrase : Phrase ls) (h : Starts ls ts rest) : after? .closeParen ts = none := by
  obtain ⟨front, rfl, rfl⟩ := h
  obtain ⟨l, first, opens⟩ := phrase.opens
  refine Option.eq_none_iff_forall_not_mem.mpr fun r hr => ?_
  obtain ⟨p, whole⟩ := after?_eq_some_iff.mp hr
  cases front with
  | nil => cases first
  | cons t front =>
    obtain ⟨rfl, -⟩ : t = _ ∧ _ := by simpa using whole
    obtain rfl := Option.some.inj first
    rcases opens with opens | ⟨sign, opens⟩ <;> cases opens

mutual

/-- Every well formed form is read. -/
theorem complete : (f : Form) → f.WellFormed → Complete f
  | .number x, _ => complete_of_primary (fun ts rest start _ => by
      obtain ⟨p, rfl⟩ := start.single
      rw [primary]
      rfl) ⟨_, rfl, fun _ => nofun⟩
  | .text s, _ => complete_of_primary (fun ts rest start _ => by
      obtain ⟨p, rfl⟩ := start.single
      rw [primary]
      rfl) ⟨_, rfl, fun _ => nofun⟩
  | .name n, _ => complete_of_primary (fun ts rest start stops => by
      obtain ⟨p, rfl⟩ := start.single
      rw [view_primary_name, stops.after? (s := .openParen) rfl (Nat.le_refl _)]
      rfl) ⟨_, rfl, fun _ => nofun⟩
  | .paren f, wf => complete_of_primary (fun ts rest start _ => by
      obtain ⟨p, inside, rfl, start'⟩ := start.uncons
      obtain ⟨close, startf, atClose⟩ := start'.split
      obtain ⟨q, rfl⟩ := atClose.single
      rw [view_primary_paren, (complete f wf).conditional _ _ startf (.apart rfl)]
      rfl) ⟨_, rfl, fun sign => by cases sign <;> nofun⟩
  | .signed sign f, ⟨wf, rank⟩ => complete_of_unary (fun ts rest start stops => by
      obtain ⟨p, inside, rfl, startf⟩ := start.uncons
      rw [view_unary, signOf?_eq_some_iff.mpr ⟨p, rfl⟩]
      simp only [(complete f wf).unary rank _ _ startf stops]
      rfl) nofun nofun
  | .binary o l r, ⟨wfl, wfr, ranks⟩ => by
    split at ranks
    · rename_i level ofLevel
      refine complete_of_chain (Form.rank_binary_of_level ofLevel l r) fun ts rest start stops => ?_
      obtain ⟨atOperator, startl, start'⟩ := Starts.split start
      obtain ⟨p, inside, rfl, startr⟩ := start'.uncons
      have joins : joins? (.symbol (.operator o)) = some level.rank := by simp [joins?, ofLevel]
      rw [(complete l wfl).chain level ranks.1 _ _ startl (.symbol joins (Nat.lt_succ_self _)),
        view_chainFrom, operatorOf?_eq_some_iff.mpr ⟨ofLevel, p, rfl⟩]
      simp only [understands_operand (complete r wfr) ranks.2 _ _ startr stops]
      rfl
    · rename_i ofNone
      obtain rfl := Operator.level?_eq_none_iff.mp ofNone
      refine complete_of_power (fun ts rest start stops => ?_) nofun ?_
      · obtain ⟨atCaret, startl, start'⟩ := Starts.split start
        obtain ⟨p, inside, rfl, startr⟩ := start'.uncons
        rw [view_power, (complete l wfl).primary ranks.1 _ _ startl (.symbol rfl (by decide))]
        simp only [Option.bind_some, after?_eq_some_iff.mpr ⟨p, rfl⟩,
          (complete r wfr).unary ranks.2 _ _ startr stops]
        rfl
      · obtain ⟨l', first, other⟩ := head_of_rank ranks.1
        exact ⟨l', by simp [Form.lexemes, List.head?_append, first], other⟩
  | .choice c a b, ⟨wfc, wfa, wfb, rank⟩ =>
    { conditional := fun ts rest start stops => by
        obtain ⟨atQuestion, startc, start'⟩ := Starts.split start
        obtain ⟨p, inA, rfl, startA⟩ := start'.uncons
        obtain ⟨atColon, starta, start''⟩ := startA.split
        obtain ⟨q, inB, rfl, startb⟩ := start''.uncons
        have condition := ((complete c wfc).chain .comparison rank).understands _ _ startc
          (.symbol rfl (by decide))
        rw [view_conditional, condition]
        simp only [Option.bind_some, after?_eq_some_iff.mpr ⟨p, rfl⟩,
          (complete a wfa).conditional _ _ starta (.apart rfl), after?_eq_some_iff.mpr ⟨q, rfl⟩,
          (complete b wfb).conditional _ _ startb stops]
        rfl
      chain := fun level le => absurd le (by cases level <;> simp [Form.rank, Level.rank])
      unary := nofun
      power := nofun
      primary := nofun }
  | .emptyCall n, _ => complete_of_primary (fun ts rest start _ => by
      obtain ⟨p, ts', rfl, start'⟩ := start.uncons
      obtain ⟨q, ts'', rfl, start''⟩ := start'.uncons
      obtain ⟨q', rfl⟩ := start''.single
      rw [view_primary_name]
      rfl) ⟨_, rfl, fun _ => nofun⟩
  | .call n as, wf => complete_of_primary (fun ts rest start _ => by
      obtain ⟨p, ts', rfl, start'⟩ := start.uncons
      obtain ⟨q, inside, rfl, start''⟩ := start'.uncons
      obtain ⟨close, starts, atClose⟩ := start''.split
      obtain ⟨q', rfl⟩ := atClose.single
      rw [view_primary_name]
      simp only [after?_eq_some_iff.mpr ⟨q, rfl⟩, after?_closeParen_of_starts as.phrase starts,
        completeArguments as wf _ _ starts (.apart rfl) rfl]
      rfl) ⟨_, rfl, fun _ => nofun⟩

/-- Arguments are read up to what separates no more of them. -/
theorem completeArguments : (as : Arguments) → as.WellFormed → ∀ ts rest,
    Starts as.lexemes ts rest → Stops 0 rest → afterSeparator? rest = none →
    view (arguments ts) = some (as.exprs, rest)
  | .last f, wf, ts, rest, start, stops, last => by
    rw [view_arguments, (complete f wf).conditional ts rest start stops]
    simp only [Option.bind_some, last]
    rfl
  | .more f s as, ⟨wf, wfs⟩, ts, rest, start, stops, last => by
    obtain ⟨atSeparator, startf, start'⟩ := Starts.split start
    obtain ⟨p, inside, rfl, starts⟩ := start'.uncons
    rw [view_arguments, (complete f wf).conditional _ _ startf (.apart (by cases s <;> rfl))]
    simp only [Option.bind_some, afterSeparator?_eq_some_iff.mpr ⟨s, p, rfl⟩,
      completeArguments as wfs _ _ starts stops last]
    rfl

end

/-! ## 6. Formulas -/

theorem parse_eq_ok {ts : List Token} {e : Expr} :
    parse ts = .ok e ↔ view (conditional ts) = some (e, []) := by
  unfold parse
  split
  · rename_i empty
    obtain rfl := List.isEmpty_iff.mp empty
    have : view (conditional []) = none := by
      cases h : view (conditional []) with
      | none => rfl
      | some p => exact absurd (length_of_view h) (Nat.not_lt_zero _)
    simp [this]
  · cases conditional ts with
    | error f => simp
    | ok whole =>
      cases h : whole.rest <;> simp [h]

/-- **The parser accepts what is well formed**, and makes of it the expression that it stands for. -/
theorem parse_eq_ok_iff {ts : List Token} {e : Expr} :
    parse ts = .ok e ↔
      ∃ f : Form, f.WellFormed ∧ f.expr = e ∧ ts.map Token.lexeme = f.lexemes := by
  rw [parse_eq_ok]
  constructor
  · intro h
    obtain ⟨f, wf, -, rfl, front, rfl, lexemes⟩ := reads_of_conditional ts h
    exact ⟨f, wf, rfl, by rw [List.append_nil, lexemes]⟩
  · rintro ⟨f, wf, rfl, lexemes⟩
    exact (complete f wf).conditional ts [] ⟨ts, (List.append_nil ts).symm, lexemes⟩ .nil

end Parser

/-- The expression that a text stands for, however deep it nests.  `readExpression` is this with the
limit on nesting, which belongs to the machine and not to the language. -/
def parsed (s : Text) : Except SyntaxFault Expr :=
  match Lexer.scan s with
  | .error f => .error f
  | .ok scanned => Parser.parse scanned.tokens

/-- What is read is parsed, or it nests too deeply. -/
theorem readExpression_eq_or (s : Text) :
    readExpression s = parsed s ∨ readExpression s = .error .tooDeep := by
  unfold readExpression parsed
  cases Lexer.scan s with
  | error f => exact .inl rfl
  | ok scanned => exact (ite_eq_or_eq ..).symm

theorem parsed_of_readExpression {s : Text} {e : Expr} (h : readExpression s = .ok e) :
    parsed s = .ok e := by
  rcases readExpression_eq_or s with same | deep
  · rw [← same, h]
  · rw [deep] at h
    cases h

/-- How deep tokens nest is up to their lexemes. -/
theorem nesting_eq (ts : List Token) :
    nesting ts = nesting ((ts.map Token.lexeme).map fun l => ⟨l, 0⟩) := by
  rw [nesting, nesting, List.map_map, List.foldl_map]
  rfl

/-- What is parsed is read, or refused, by how deep its lexemes nest. -/
theorem readExpression_eq_ite {s : Text} {e : Expr} {ls : List Lexeme} (parses : parsed s = .ok e)
    (lexes : Lexer.Lexes s ls) :
    readExpression s =
      if mostNesting < nesting (ls.map fun l => ⟨l, 0⟩) then .error .tooDeep else .ok e := by
  obtain ⟨scanned, run, rfl⟩ := Lexer.lexes_iff_scan.mp lexes
  unfold parsed at parses
  unfold readExpression
  rw [run] at parses ⊢
  dsimp only at parses ⊢
  rw [parses, ← nesting_eq]

/-- What is parsed is read if its lexemes do not nest too deeply. -/
theorem readExpression_of_parsed {s : Text} {e : Expr} {ls : List Lexeme} (parses : parsed s = .ok e)
    (lexes : Lexer.Lexes s ls) (shallow : nesting (ls.map fun l => ⟨l, 0⟩) ≤ mostNesting) :
    readExpression s = .ok e := by
  rw [readExpression_eq_ite parses lexes, if_neg (Nat.not_lt.mpr shallow)]

/-- **A text stands for an expression** when it is cut into the lexemes of a form that does. -/
theorem parsed_eq_ok_iff {s : Text} {e : Expr} :
    parsed s = .ok e ↔ ∃ f : Form, f.WellFormed ∧ f.expr = e ∧ Lexer.Lexes s f.lexemes := by
  unfold parsed
  constructor
  · intro h
    split at h
    · cases h
    · rename_i scanned run
      obtain ⟨f, wf, expr, lexemes⟩ := Parser.parse_eq_ok_iff.mp h
      exact ⟨f, wf, expr, Lexer.lexes_iff_scan.mpr ⟨scanned, run, lexemes⟩⟩
  · rintro ⟨f, wf, expr, lexes⟩
    obtain ⟨scanned, run, lexemes⟩ := Lexer.lexes_iff_scan.mp lexes
    rw [run]
    exact Parser.parse_eq_ok_iff.mpr ⟨f, wf, expr, lexemes⟩

end Haulage
