/-
# What an average adds up

An average is spelled out by writing its arguments one after the other with plus signs between them,
without parentheses.  What is read there is `Form.sum`: a plus sign joins the last sum of what stands in
front of it with the first sum behind it, so a comparison or a choice among the arguments takes its
neighbours into one of its own parts (`Form.plus`).  Sums and differences may be taken apart that way:
computed exactly, the value is the same.  So an average is the exact mean of its arguments if none of
them is a comparison or a choice outside parentheses, or if it has one argument only
(`parsed_expand_average`).

Exactly means in rational numbers, `Expr.exactly`: the floats of the program are rounded after every
addition, and not the same way when a sum is taken apart.
-/
import Haulage.Formula.Evaluation
import Haulage.Proofs.Formula.Numeral
import Haulage.Proofs.Formula.Parsing
import Haulage.Proofs.Number.Nearest
import Haulage.Proofs.Number.Order
import Haulage.Proofs.Shorthand.Pass

namespace Haulage

open Lexer (Lexes)

/-! ## 1. A plus sign between two forms -/

/-- What is read where a plus sign stands between two forms without parentheses. -/
def Form.plus : Form → Form → Form
  | .choice c a b, g => .choice c a (b.plus g)
  | f, .choice c a b => .choice (f.plus c) a b
  | .binary o l r, .binary o' l' r' =>
    if (Form.binary o l r).rank = 1 ∧ (Form.binary o' l' r').rank ≠ 1 then
      .binary o l (r.plus (.binary o' l' r'))
    else if (Form.binary o' l' r').rank < 3 then .binary o' ((Form.binary o l r).plus l') r'
    else .binary .plus (.binary o l r) (.binary o' l' r')
  | f, .binary o l r =>
    if (Form.binary o l r).rank < 3 then .binary o (f.plus l) r
    else .binary .plus f (.binary o l r)
  | .binary o l r, g =>
    if (Form.binary o l r).rank = 1 then .binary o l (r.plus g)
    else .binary .plus (.binary o l r) g
  | f, g => .binary .plus f g
termination_by f g => sizeOf f + sizeOf g

namespace Form

theorem rank_pos {f : Form} (other : ∀ c a b, f ≠ .choice c a b) : 1 ≤ f.rank := by
  cases f with
  | choice c a b => exact absurd rfl (other c a b)
  | binary o l r => cases o <;> simp [rank, Operator.level?, Level.rank]
  | _ => simp [rank]

theorem four_le_rank {f : Form} (other : ∀ c a b, f ≠ .choice c a b)
    (other' : ∀ o l r, f ≠ .binary o l r) : 4 ≤ f.rank := by
  cases f with
  | choice c a b => exact absurd rfl (other c a b)
  | binary o l r => exact absurd rfl (other' o l r)
  | _ => simp [rank]

/-- What stands for no comparison and no choice is written as none. -/
theorem two_le_rank {f : Form} (noChoice : ∀ c a b, f.expr ≠ .conditional c a b)
    (noComparison : ∀ o l r, f.expr = .binary o l r → o.level? ≠ some .comparison) : 2 ≤ f.rank := by
  cases f with
  | choice c a b => exact absurd rfl (noChoice _ _ _)
  | binary o l r =>
    have other := noComparison o _ _ rfl
    cases o <;> simp [rank, Operator.level?, Level.rank] at other ⊢
  | _ => simp [rank]

/-- The cases of a plus sign between two forms, by what binds more tightly than what. -/
theorem plus_induction {motive : Form → Form → Form → Prop}
    (choiceLeft : ∀ c a b g, motive b g (b.plus g) → motive (.choice c a b) g (.choice c a (b.plus g)))
    (choiceRight : ∀ f c a b, 1 ≤ f.rank → motive f c (f.plus c) →
      motive f (.choice c a b) (.choice (f.plus c) a b))
    (comparisonLeft : ∀ o l r g, (Form.binary o l r).rank = 1 → 2 ≤ g.rank →
      motive r g (r.plus g) → motive (.binary o l r) g (.binary o l (r.plus g)))
    (looseRight : ∀ f o l r, 1 ≤ (Form.binary o l r).rank → (Form.binary o l r).rank ≤ 2 →
      (Form.binary o l r).rank ≤ f.rank → motive f l (f.plus l) →
      motive f (.binary o l r) (.binary o (f.plus l) r))
    (sum : ∀ f g, 2 ≤ f.rank → 3 ≤ g.rank → motive f g (.binary .plus f g)) (f g : Form) :
    motive f g (f.plus g) := by
  fun_induction Form.plus f g with
  | case1 c a b g ih => exact choiceLeft c a b g ih
  | case2 f c a b other ih => exact choiceRight f c a b (rank_pos other) ih
  | case3 o l r o' l' r' compared ih =>
    have := rank_pos (f := .binary o' l' r') nofun
    exact comparisonLeft o l r _ compared.1 (by omega) ih
  | case4 o l r o' l' r' compared loose ih =>
    have := rank_pos (f := .binary o l r) nofun
    have := rank_pos (f := .binary o' l' r') nofun
    exact looseRight _ o' l' r' (by omega) (by omega) (by omega) ih
  | case5 o l r o' l' r' compared tight =>
    have := rank_pos (f := .binary o l r) nofun
    exact sum _ _ (by omega) (by omega)
  | case6 f o l r other other' loose ih =>
    have := four_le_rank other other'
    have := rank_pos (f := .binary o l r) nofun
    exact looseRight f o l r (by omega) (by omega) (by omega) ih
  | case7 f o l r other other' tight =>
    have := four_le_rank other other'
    exact sum _ _ (by omega) (by omega)
  | case8 o l r g other other' compared ih =>
    have := four_le_rank other other'
    exact comparisonLeft o l r g compared (by omega) ih
  | case9 o l r g other other' tight =>
    have := four_le_rank other other'
    have := rank_pos (f := .binary o l r) nofun
    exact sum _ _ (by omega) (by omega)
  | case10 f g other other' both right left =>
    have := four_le_rank other left
    have := four_le_rank other' right
    exact sum _ _ (by omega) (by omega)

theorem lexemes_plus (f g : Form) :
    (f.plus g).lexemes = f.lexemes ++ .symbol (.operator .plus) :: g.lexemes := by
  fun_induction Form.plus f g <;> simp [lexemes, *]

theorem calls_plus (f g : Form) : (f.plus g).calls = f.calls ++ g.calls := by
  fun_induction Form.plus f g <;> simp [calls, *]

/-- A form binds as tightly with other operands. -/
theorem rank_binary_congr (o : Operator) (l r l' r' : Form) :
    (Form.binary o l r).rank = (Form.binary o l' r').rank := rfl

theorem rank_plus (f g : Form) : (f.plus g).rank = min f.rank (min g.rank 2) := by
  have choice (c a b : Form) : (Form.choice c a b).rank = 0 := rfl
  refine plus_induction (motive := fun f g h => h.rank = min f.rank (min g.rank 2))
    ?_ ?_ ?_ ?_ ?_ f g
  · intro c a b g _
    simp [choice]
  · intro f c a b _ _
    simp [choice]
  · intro o l r g comparison tight _
    rw [rank_binary_congr o l _ l r]
    omega
  · intro f o l r pos loose le _
    rw [rank_binary_congr o _ r l r]
    omega
  · intro f g left right
    show 2 = _
    omega

/-- The operands of a form whose operator is no power. -/
theorem wellFormed_loose_binary_iff {o : Operator} {l r : Form} (loose : (Form.binary o l r).rank ≤ 3) :
    (Form.binary o l r).WellFormed ↔ l.WellFormed ∧ r.WellFormed ∧
      (Form.binary o l r).rank ≤ l.rank ∧ (Form.binary o l r).rank < r.rank := by
  cases level : o.level? with
  | none => simp [rank, level] at loose
  | some level' => simp [WellFormed, level, rank_binary_of_level level]

theorem WellFormed.plus {f g : Form} (hf : f.WellFormed) (hg : g.WellFormed) :
    (f.plus g).WellFormed := by
  revert hf hg
  refine plus_induction (motive := fun f g h => f.WellFormed → g.WellFormed → h.WellFormed)
    ?_ ?_ ?_ ?_ ?_ f g
  · intro c a b g ih hf hg
    exact ⟨hf.1, hf.2.1, ih hf.2.2.1 hg, hf.2.2.2⟩
  · intro f c a b pos ih hf hg
    refine ⟨ih hf hg.1, hg.2.1, hg.2.2.1, ?_⟩
    have := hg.2.2.2
    rw [rank_plus]
    omega
  · intro o l r g comparison tight ih hf hg
    obtain ⟨left, right, le, lt⟩ := (wellFormed_loose_binary_iff (by omega)).mp hf
    rw [rank_binary_congr o l r l (r.plus g)] at comparison le lt
    refine (wellFormed_loose_binary_iff (by omega)).mpr ⟨left, ih right hg, le, ?_⟩
    rw [rank_plus]
    omega
  · intro f o l r pos loose le ih hf hg
    obtain ⟨left, right, le', lt⟩ := (wellFormed_loose_binary_iff (by omega)).mp hg
    rw [rank_binary_congr o l r (f.plus l) r] at loose le le' lt
    refine (wellFormed_loose_binary_iff (by omega)).mpr ⟨ih hf left, right, ?_, lt⟩
    rw [rank_plus]
    omega
  · intro f g left right hf hg
    exact ⟨hf, hg, left, right⟩

/-- **Only a sum and a term are added as they stand.** -/
theorem expr_plus_eq_iff (f g : Form) (e : Expr) :
    (f.plus g).expr = .binary .plus e g.expr ↔ f.expr = e ∧ 2 ≤ f.rank ∧ 3 ≤ g.rank := by
  refine plus_induction (motive := fun f g h => h.expr = .binary .plus e g.expr ↔
    f.expr = e ∧ 2 ≤ f.rank ∧ 3 ≤ g.rank) ?_ ?_ ?_ ?_ ?_ f g
  · intro c a b g _
    simp [expr, rank]
  · intro f c a b _ _
    simp [expr, rank]
  · intro o l r g comparison tight _
    have other : o ≠ .plus := by
      rintro rfl
      cases comparison
    simp only [expr, Expr.binary.injEq, other, false_and, false_iff, comparison]
    omega
  · intro f o l r _ loose _ _
    have larger : r.expr ≠ (Form.binary o l r).expr := fun same => by
      have size := congrArg sizeOf same
      simp only [expr, Expr.binary.sizeOf_spec] at size
      omega
    simp only [expr, Expr.binary.injEq] at larger ⊢
    simp only [larger, and_false, false_iff]
    omega
  · intro f g left right
    simp [expr, left, right]

end Form

/-! ## 2. Exact values -/

/-- The rational number that a value is; truth values are one and zero. -/
def Value.exact? (v : Value) : Option ℚ :=
  match v.number? with
  | some (.int n) => some n
  | some (.float x) => if x.isFinite then some (exactValue x) else none
  | none => none

/-- The value of an expression, computed exactly in sums, differences, products, quotients and signs.
The operands of these are what the program takes them for. -/
def Expr.exactly (bindings : Bindings) : Expr → Option ℚ
  | .signed .plus e => e.exactly bindings
  | .signed .minus e => (e.exactly bindings).map (- ·)
  | .binary .plus l r => do some ((← l.exactly bindings) + (← r.exactly bindings))
  | .binary .minus l r => do some ((← l.exactly bindings) - (← r.exactly bindings))
  | .binary .times l r => do some ((← l.exactly bindings) * (← r.exactly bindings))
  | .binary .divide l r => do
    let dividend ← l.exactly bindings
    let divisor ← r.exactly bindings
    if divisor = 0 then none else some (dividend / divisor)
  | e => (e.eval bindings).toOption.bind Value.exact?

section Exactly

variable {bindings : Bindings} {l r : Expr} {a b c : ℚ}

theorem exactly_plus_eq_some_iff : (Expr.binary .plus l r).exactly bindings = some c ↔
    ∃ a b, l.exactly bindings = some a ∧ r.exactly bindings = some b ∧ a + b = c := by
  simp [Expr.exactly, Option.bind_eq_some_iff]

theorem exactly_minus_eq_some_iff : (Expr.binary .minus l r).exactly bindings = some c ↔
    ∃ a b, l.exactly bindings = some a ∧ r.exactly bindings = some b ∧ a - b = c := by
  simp [Expr.exactly, Option.bind_eq_some_iff]

/-- A quotient of two numbers, the second of them not zero. -/
theorem exactly_divide (left : l.exactly bindings = some a) (right : r.exactly bindings = some b)
    (nonzero : b ≠ 0) : (Expr.binary .divide l r).exactly bindings = some (a / b) := by
  simp [Expr.exactly, left, right, nonzero]

/-- **A plus sign between two sums adds them**, whatever is taken apart. -/
theorem Form.exactly_plus {f g : Form} (wf : g.WellFormed) (hf : 2 ≤ f.rank) (hg : 2 ≤ g.rank)
    (left : f.expr.exactly bindings = some a) (right : g.expr.exactly bindings = some b) :
    (f.plus g).expr.exactly bindings = some (a + b) := by
  revert wf hf hg a b
  refine Form.plus_induction (motive := fun f g h => ∀ {a b : ℚ}, g.WellFormed → 2 ≤ f.rank →
    2 ≤ g.rank → f.expr.exactly bindings = some a → g.expr.exactly bindings = some b →
    h.expr.exactly bindings = some (a + b)) ?_ ?_ ?_ ?_ ?_ f g
  · intro c a b g _ _ _ _ hf
    simp [rank] at hf
  · intro f c a b _ _ _ _ _ _ hg
    simp [rank] at hg
  · intro o l r g comparison _ _ _ _ _ hf
    omega
  · intro f o l r _ loose _ ih a b wf hf hg left right
    obtain ⟨wfl, -, le, -⟩ := (Form.wellFormed_loose_binary_iff (by omega)).mp wf
    have sum : o = .plus ∨ o = .minus := by
      cases o <;> simp [rank, Operator.level?, Level.rank] at loose hg ⊢
    rcases sum with rfl | rfl
    · obtain ⟨c, d, first, second, rfl⟩ := exactly_plus_eq_some_iff.mp right
      have joined := ih wfl hf (hg.trans le) left first
      exact exactly_plus_eq_some_iff.mpr ⟨a + c, d, joined, second, add_assoc a c d⟩
    · obtain ⟨c, d, first, second, rfl⟩ := exactly_minus_eq_some_iff.mp right
      have joined := ih wfl hf (hg.trans le) left first
      exact exactly_minus_eq_some_iff.mpr ⟨a + c, d, joined, second, add_sub_assoc a c d⟩
  · intro f g _ _ a b _ _ _ left right
    exact exactly_plus_eq_some_iff.mpr ⟨a, b, left, right, rfl⟩

end Exactly

/-- A natural of at most 53 binary digits is read exactly. -/
theorem exactly_natural {n : ℕ} (pos : 0 < n) (short : n < 2 ^ 53) (bindings : Bindings) :
    (Expr.number (Scientific.toFloat ⟨n, 0⟩)).exactly bindings = some (n : ℚ) := by
  obtain ⟨m, e, positive, parts, -, value⟩ := unpack_toFloat pos short
  have read : Scientific.toFloat ⟨n, 0⟩ = n.toUInt64.toFloat := by
    rw [← nearest_eq parts, value, toFloat_eq_nearest pos (Nat.zero_le _)]
    simp [Scientific.toRat]
  have exact' : exactValue n.toUInt64.toFloat = n := by
    rw [exactValue_of_finite parts, ← value]
    simp [Float.Model.UnpackedFloat.Sign.apply]
  have finite : n.toUInt64.toFloat.isFinite = true := by
    change n.toUInt64.toFloat.toModel.unpack.isFinite = true
    rw [parts]
    rfl
  simp [Expr.exactly, Expr.eval, Value.exact?, Value.number?, read, finite, exact', Except.toOption]

/-! ## 3. Plus signs between any number of forms -/

/-- What is read where plus signs stand between forms without parentheses. -/
def Form.sum (f : Form) (gs : List Form) : Form := gs.foldl Form.plus f

namespace Form

theorem lexemes_sum_cons (f g : Form) (gs : List Form) :
    (f.sum (g :: gs)).lexemes = f.lexemes ++ .symbol (.operator .plus) :: (g.sum gs).lexemes := by
  induction gs using List.reverseRecOn with
  | nil => exact lexemes_plus f g
  | append_singleton gs h ih =>
    simp only [sum, List.foldl_cons, List.foldl_append, List.foldl_nil, lexemes_plus] at ih ⊢
    rw [ih]
    simp

theorem calls_sum (f : Form) (gs : List Form) :
    (f.sum gs).calls = f.calls ++ gs.flatMap Form.calls := by
  induction gs generalizing f with
  | nil => simp [sum]
  | cons g gs ih => simpa [sum, calls_plus] using ih (f.plus g)

theorem WellFormed.sum {f : Form} {gs : List Form} (hf : f.WellFormed)
    (all : ∀ g ∈ gs, g.WellFormed) : (f.sum gs).WellFormed := by
  induction gs generalizing f with
  | nil => exact hf
  | cons g gs ih =>
    obtain ⟨first, rest⟩ := List.forall_mem_cons.mp all
    exact ih (hf.plus first) rest

/-- Plus signs make a sum of forms that are sums or bind more tightly. -/
theorem two_le_rank_sum_iff (f : Form) (gs : List Form) :
    2 ≤ (f.sum gs).rank ↔ ∀ g ∈ f :: gs, 2 ≤ g.rank := by
  induction gs generalizing f with
  | nil => simp [sum]
  | cons g gs ih =>
    have joined := ih (f.plus g)
    simp only [sum, List.foldl_cons, List.forall_mem_cons, rank_plus] at joined ⊢
    rw [joined]
    constructor
    · rintro ⟨both, rest⟩
      exact ⟨by omega, by omega, rest⟩
    · rintro ⟨left, right, rest⟩
      exact ⟨by omega, rest⟩

/-- Sums are added exactly. -/
theorem exactly_sum {bindings : Bindings} {f : Form} {gs : List Form} {a : ℚ} {bs : List ℚ}
    (wf : ∀ g ∈ gs, g.WellFormed) (ranks : ∀ g ∈ f :: gs, 2 ≤ g.rank)
    (first : f.expr.exactly bindings = some a)
    (rest : List.Forall₂ (fun g b => g.expr.exactly bindings = some b) gs bs) :
    (f.sum gs).expr.exactly bindings = some (a + bs.sum) := by
  induction rest generalizing f a with
  | nil => simpa [sum] using first
  | @cons g b gs bs second _ ih =>
    obtain ⟨wfg, wf⟩ := List.forall_mem_cons.mp wf
    obtain ⟨rankf, ranks⟩ := List.forall_mem_cons.mp ranks
    obtain ⟨rankg, ranks⟩ := List.forall_mem_cons.mp ranks
    have joined := exactly_plus wfg rankf rankg first second
    have rank : 2 ≤ (f.plus g).rank := by
      rw [rank_plus]
      omega
    rw [List.sum_cons, ← add_assoc]
    exact ih wf (List.forall_mem_cons.mpr ⟨rank, ranks⟩) joined

/-- **Sums are added as they stand**, from left to right, if all but the first are terms. -/
theorem expr_sum_eq_iff (f : Form) (gs : List Form) :
    (f.sum gs).expr = (gs.map Form.expr).foldl (Expr.binary .plus) f.expr ↔
      gs = [] ∨ 2 ≤ f.rank ∧ ∀ g ∈ gs, 3 ≤ g.rank := by
  induction gs using List.reverseRecOn with
  | nil => simp [sum]
  | append_singleton gs g ih =>
    have last : f.sum (gs ++ [g]) = (f.sum gs).plus g := by simp [sum]
    have ranks := two_le_rank_sum_iff f gs
    rw [last, List.map_append, List.foldl_append]
    simp only [List.map_cons, List.map_nil, List.foldl_cons, List.foldl_nil]
    rw [expr_plus_eq_iff, ih, ranks]
    simp only [List.forall_mem_cons, List.forall_mem_append, List.append_eq_nil_iff,
      List.cons_ne_nil, and_false, false_or, List.not_mem_nil, false_imp_iff, implies_true, and_true]
    constructor
    · rintro ⟨rfl | ⟨-, terms⟩, ⟨rank, -⟩, tight⟩
      · exact ⟨rank, List.forall_mem_nil _, tight⟩
      · exact ⟨rank, terms, tight⟩
    · rintro ⟨rank, terms, tight⟩
      exact ⟨.inr ⟨rank, terms⟩, ⟨rank, fun g mem => Nat.le_of_succ_le (terms g mem)⟩, tight⟩

end Form

/-! ## 4. Averages -/

/-- The expression divided by a natural. -/
def Expr.over (e : Expr) (n : ℕ) : Expr := .binary .divide e (.number (Scientific.toFloat ⟨n, 0⟩))

/-- The form that an average is spelled as. -/
def Form.average (f : Form) (gs : List Form) : Form :=
  .paren (.binary .divide (.paren (f.sum gs)) (.number (Scientific.toFloat ⟨(f :: gs).length, 0⟩)))

/-- The text that an average is spelled as. -/
def averageText (es : List Text) : Text :=
  "((".toList ++ Text.join " + ".toList (es.map Text.strip) ++ ") / ".toList ++
    digitsOf es.length ++ [')']

/-- A text is written as a well formed form, without texts in double quotes. -/
structure Form.Writes (e : Text) (f : Form) : Prop where
  wellFormed : f.WellFormed
  lexes : Lexes e f.lexemes
  plain : '"' ∉ e

section Spelling

variable {e : Text} {es : List Text} {f : Form} {gs : List Form}

theorem forall₂_writes {args : List Expr} (reads : List.Forall₂ (fun e a => parsed e = .ok a) es args)
    (plain : ∀ e ∈ es, '"' ∉ e) :
    ∃ fs, List.Forall₂ Form.Writes es fs ∧ fs.map Form.expr = args := by
  induction reads with
  | nil => exact ⟨[], .nil, rfl⟩
  | @cons e a es args read _ ih =>
    obtain ⟨plain', rest⟩ := List.forall_mem_cons.mp plain
    obtain ⟨fs, writes, exprs⟩ := ih rest
    obtain ⟨f, wf, expr, lexes⟩ := parsed_eq_ok_iff.mp read
    exact ⟨f :: fs, .cons ⟨wf, lexes, plain'⟩ writes, by rw [List.map_cons, expr, exprs]⟩

theorem wellFormed_of_writes {fs : List Form} (writes : List.Forall₂ Form.Writes es fs) :
    ∀ f ∈ fs, f.WellFormed := by
  induction writes with
  | nil => exact List.forall_mem_nil _
  | cons first _ ih => exact List.forall_mem_cons.mpr ⟨first.wellFormed, ih⟩

theorem grouped_of_writes {fs : List Form} (writes : List.Forall₂ Form.Writes es fs) :
    ∀ e ∈ es, Grouped (· ≠ ';') e := by
  induction writes with
  | nil => exact List.forall_mem_nil _
  | @cons e f _ _ first _ ih =>
    exact List.forall_mem_cons.mpr ⟨(f.grouped first.wellFormed first.lexes first.plain).semicolon, ih⟩

/-- Texts of forms without calls of shorthands have none with semicolons between them. -/
theorem quiet_join {fs : List Form} (writes : List.Forall₂ Form.Writes es fs)
    (free : ∀ f ∈ fs, ∀ call ∈ f.expr.calls, ∀ k : Shorthand, ¬k.Names call.1) (k : Shorthand)
    {rest : Text} (follows : Follows rest) (before : Option Char) :
    Quiet (headNamed k.name.toList) before (Text.join ";".toList es) rest := by
  induction writes generalizing before with
  | nil => exact quiet_of_no_letters k.shorthandName (List.forall_mem_nil _)
  | @cons e f es fs first writes ih =>
    obtain ⟨none, free⟩ := List.forall_mem_cons.mp free
    cases es with
    | nil => exact quiet_of_free first.lexes first.plain none k follows before
    | cons e' es =>
      have join : Text.join ";".toList (e :: e' :: es) =
          e ++ ([';'] ++ Text.join ";".toList (e' :: es)) := by simp [Text.join]
      rw [join]
      refine quiet_append.mpr ⟨quiet_of_free first.lexes first.plain none k ?_ before,
        quiet_append.mpr ⟨quiet_of_no_letters k.shorthandName (by decide), ih free _⟩⟩
      exact .cons (by decide) (by decide) (by decide) _

theorem lexes_sum (first : f.Writes e) (writes : List.Forall₂ Form.Writes es gs) :
    Lexes (Text.join " + ".toList ((e :: es).map Text.strip)) (f.sum gs).lexemes := by
  induction writes generalizing e f with
  | nil => exact first.lexes.strip
  | @cons e' g es gs second _ ih =>
    have plus : Lexes " + ".toList [.symbol (.operator .plus)] := Lexer.lexes_spaced rfl
    have apart := (f.phrase.join (g.sum gs).phrase (.operator .plus)).apart
    have join : Text.join " + ".toList ((e :: e' :: es).map Text.strip) =
        [e.strip, " + ".toList, Text.join " + ".toList ((e' :: es).map Text.strip)].flatten := by
      simp [Text.join]
    have whole : (f.sum (g :: gs)).lexemes =
        [f.lexemes, [.symbol (.operator .plus)], (g.sum gs).lexemes].flatten := by
      simp [Form.lexemes_sum_cons]
    rw [join, whole]
    exact Lexes.flatten (.cons first.lexes.strip (.cons plus (.cons (ih second) .nil)))
      (by simpa using apart)

theorem lexes_averageText (first : f.Writes e) (writes : List.Forall₂ Form.Writes es gs) :
    Lexes (averageText (e :: es)) (f.average gs).lexemes := by
  have opens : Lexes "(".toList [.symbol .openParen] := Lexer.lexes_symbol rfl
  have closes : Lexes ")".toList [.symbol .closeParen] := Lexer.lexes_symbol rfl
  have divide : Lexes " / ".toList [.symbol (.operator .divide)] := Lexer.lexes_spaced rfl
  have number := lexes_digitsOf (f :: gs).length
  have apart := (f.average gs).phrase.apart
  have whole : (f.average gs).lexemes = [[.symbol .openParen], [.symbol .openParen],
      (f.sum gs).lexemes, [.symbol .closeParen], [.symbol (.operator .divide)],
      [.number (Scientific.toFloat ⟨(f :: gs).length, 0⟩)], [.symbol .closeParen]].flatten := by
    simp [Form.average, Form.lexemes]
  rw [whole] at apart ⊢
  have out := Lexes.flatten (.cons opens (.cons opens (.cons (lexes_sum first writes)
    (.cons closes (.cons divide (.cons number (.cons closes .nil))))))) apart
  have count : (e :: es).length = (f :: gs).length := (List.Forall₂.cons first writes).length_eq
  rw [averageText, count]
  simpa using out

theorem plain_averageText (plain : ∀ e ∈ es, '"' ∉ e) : '"' ∉ averageText es := by
  have digits : '"' ∉ digitsOf es.length := fun quote =>
    absurd (Digits.digitsOf _ _ quote) (by decide)
  have join : '"' ∉ Text.join " + ".toList (es.map Text.strip) := by
    clear digits
    induction es with
    | nil => simp [Text.join]
    | cons e es ih =>
      obtain ⟨first, rest⟩ := List.forall_mem_cons.mp plain
      have strip : '"' ∉ e.strip := fun quote => first (mem_of_mem_strip quote)
      cases es with
      | nil => simpa [Text.join] using strip
      | cons e' es => simpa [Text.join, strip] using ih rest
  simp only [averageText, List.mem_append, not_or]
  exact ⟨⟨⟨⟨by decide, join⟩, by decide⟩, digits⟩, by decide⟩

theorem spellAverage_strip {most : Int} (writes : List.Forall₂ Form.Writes es gs)
    (few : (es.length : ℤ) ≤ most) :
    Shorthand.spellAverage most (es.map Text.strip) = some (averageText es) := by
  have nonempty : ∀ e ∈ es.map Text.strip, e.isEmpty = false := by
    induction writes with
    | nil => exact List.forall_mem_nil _
    | @cons e f es gs first _ ih =>
      have fewer : (es.length : ℤ) ≤ most := by
        rw [List.length_cons] at few
        omega
      refine List.forall_mem_cons.mpr ⟨?_, ih fewer⟩
      cases strip : e.strip with
      | nil => exact absurd (strip ▸ first.lexes.strip).eq_nil f.phrase.ne_nil
      | cons => rfl
  have any : (es.map Text.strip).any List.isEmpty = false := by
    rw [List.any_eq_false]
    exact fun e mem => by simp [nonempty e mem]
  simp [Shorthand.spellAverage, any, few, averageText]

end Spelling

/-- **An average is the mean of its arguments, if it adds sums.**  It is spelled out unless that makes
the formula too long, and what it is spelled as is read: the sum of the arguments as plus signs without
parentheses make it, divided by their number.  That is a sum if and only if no argument is a comparison
or a choice; then, or if there is one argument only, its exact value is the mean of the exact values of
the arguments.  The arguments are added as they stand if and only if the first is a sum and the others
are terms. -/
theorem parsed_expand_average {w : Surroundings} {asked : Option Int} {es : List Text}
    {args : List Expr} (reads : List.Forall₂ (fun e a => parsed e = .ok a) es args)
    (plain : ∀ e ∈ es, '"' ∉ e)
    (free : ∀ a ∈ args, ∀ call ∈ a.calls, ∀ k : Shorthand, ¬k.Names call.1) (nonempty : es ≠ [])
    (few : (es.length : ℤ) ≤ w.settings.maxFunctionArguments) (passes : 0 < passLimit w asked) :
    ∃ out, expand w asked (.text ("PROMEDIO(".toList ++ Text.join ";".toList es ++ [')'])) =
        (if w.settings.maxExpandedLength < out.length then
          .error (.formula (.expansionTooLong out.length w.settings.maxExpandedLength))
        else .ok (.text out)) ∧
      ∃ f gs, List.Forall₂ Form.Writes es (f :: gs) ∧ (f :: gs).map Form.expr = args ∧
        parsed out = .ok ((f.sum gs).expr.over es.length) ∧
        (2 ≤ (f.sum gs).rank ↔ ∀ g ∈ f :: gs, 2 ≤ g.rank) ∧
        (2 ≤ (f.sum gs).rank ∨ gs = [] → es.length < 2 ^ 53 → ∀ bindings (vs : List ℚ),
          List.Forall₂ (fun a v => a.exactly bindings = some v) args vs →
          ((f.sum gs).expr.over es.length).exactly bindings = some (vs.sum / es.length)) ∧
        ((f.sum gs).expr = (gs.map Form.expr).foldl (Expr.binary .plus) f.expr ↔
          gs = [] ∨ 2 ≤ f.rank ∧ ∀ g ∈ gs, 3 ≤ g.rank) := by
  obtain ⟨fs, writes, rfl⟩ := forall₂_writes reads plain
  have wf := wellFormed_of_writes writes
  have groups := grouped_of_writes writes
  have free' : ∀ f ∈ fs, ∀ call ∈ f.expr.calls, ∀ k : Shorthand, ¬k.Names call.1 :=
    fun f mem => free f.expr (List.mem_map_of_mem mem)
  have spells := spellAverage_strip writes few
  rw [← semicolonArguments_join nonempty groups] at spells
  have others : ∀ k ≠ Shorthand.average,
      Quiet (headNamed k.name.toList) (some '(') (Text.join ";".toList es) [')'] := fun k _ =>
    quiet_join writes free' k (.cons (by decide) (by decide) (by decide) _) _
  have text : Shorthand.average.callText (Text.join ";".toList es) =
      "PROMEDIO(".toList ++ Text.join ";".toList es ++ [')'] := by
    simp [Shorthand.callText, Shorthand.name]
  cases writes with
  | nil => exact absurd rfl nonempty
  | @cons e f es gs first rest =>
    obtain ⟨wff, wfs⟩ := List.forall_mem_cons.mp wf
    have lexes := lexes_averageText first rest
    have count : (f :: gs).length = (e :: es).length := (List.Forall₂.cons first rest).length_eq.symm
    have calls : ∀ call ∈ (f.average gs).expr.calls, ∀ k : Shorthand, ¬k.Names call.1 := by
      intro call mem k
      rw [Form.calls_expr] at mem
      have mem : call ∈ ((f :: gs).flatMap Form.calls).map callExprs := by
        simpa [Form.average, Form.calls, Form.calls_sum] using mem
      obtain ⟨call, within, rfl⟩ := List.mem_map.mp mem
      obtain ⟨g, here, mem⟩ := List.mem_flatMap.mp within
      refine free' g here _ ?_ k
      rw [Form.calls_expr]
      exact List.mem_map_of_mem mem
    have out := @expand_callText w asked .average _ (fun _ => rfl) _ _ _
      (grouped_join fun x mem => (groups x mem).mono fun _ _ => trivial) others spells
      (fun k => quiet_of_free lexes (plain_averageText plain) calls k .nil none) passes
    refine ⟨averageText (e :: es), text ▸ out, f, gs, .cons first rest, rfl, ?_,
      f.two_le_rank_sum_iff gs, ?_, f.expr_sum_eq_iff gs⟩
    · rw [Expr.over, ← count]
      refine parsed_eq_ok_iff.mpr ⟨f.average gs, ?_, rfl, lexes⟩
      exact ⟨wff.sum wfs, trivial, show 3 ≤ 6 ∧ 3 < 6 by decide⟩
    · intro sums short bindings vs values
      have number := exactly_natural (Nat.succ_pos es.length) short bindings
      have nonzero : ((e :: es).length : ℚ) ≠ 0 := by
        rw [List.length_cons]
        exact_mod_cast Nat.succ_ne_zero es.length
      refine exactly_divide ?_ number nonzero
      rw [List.forall₂_map_left_iff] at values
      cases values with
      | @cons _ v _ vs value values =>
        rw [List.sum_cons]
        rcases sums with ranks | rfl
        · exact Form.exactly_sum wfs ((f.two_le_rank_sum_iff gs).mp ranks) value values
        · cases values
          simpa [Form.sum] using value

/-- A comparison takes what is added to it into its right side. -/
example : ((Form.binary .greater (.name ['A']) (.name ['B'])).sum [.name ['C']]).expr =
    .binary .greater (.name ['A']) (.binary .plus (.name ['B']) (.name ['C'])) := by cbv

set_option maxRecDepth 20000 in
/-- For instance of a difference and a name. -/
theorem parsed_expand_average_of_difference :
    expand .bare none (.text "PROMEDIO(A-B;C)".toList) = .ok (.text "((A-B + C) / 2)".toList) ∧
      ∃ numerator : Form, parsed "((A-B + C) / 2)".toList = .ok (numerator.expr.over 2) ∧
        (numerator.expr.over 2).exactly [(['A'], .int 7), (['B'], .int 2), (['C'], .bool true)] =
          some 3 := by
  have reads : List.Forall₂ (fun e a => parsed e = .ok a) ["A-B".toList, "C".toList]
      [.binary .minus (.name ['A']) (.name ['B']), .name ['C']] :=
    .cons (by cbv) (.cons (by cbv) .nil)
  have run : expand .bare none (.text "PROMEDIO(A-B;C)".toList) =
      .ok (.text "((A-B + C) / 2)".toList) := by rfl
  have free : ∀ a ∈ [Expr.binary .minus (.name ['A']) (.name ['B']), .name ['C']],
      ∀ call ∈ a.calls, ∀ k : Shorthand, ¬k.Names call.1 :=
    List.forall_mem_cons.mpr ⟨nofun, List.forall_mem_cons.mpr ⟨nofun, List.forall_mem_nil _⟩⟩
  obtain ⟨out, same, f, gs, writes, exprs, parse, sums, mean, stand⟩ :=
    @parsed_expand_average .bare none _ _ reads (by decide) free (by decide) (by decide) (by decide)
  obtain rfl : "((A-B + C) / 2)".toList = out := by
    have := run.symm.trans same
    split at this
    · cases this
    · simpa using this
  have ranks : ∀ g ∈ f :: gs, 2 ≤ g.rank := by
    intro g mem
    have listed : g.expr ∈ [Expr.binary .minus (.name ['A']) (.name ['B']), .name ['C']] :=
      exprs ▸ List.mem_map_of_mem mem
    refine Form.two_le_rank (fun c a b same => ?_) fun o l r same => ?_
    · rcases List.mem_pair.mp (same ▸ listed) with expr | expr <;> cases expr
    · rcases List.mem_pair.mp (same ▸ listed) with expr | expr <;> cases expr
      decide
  refine ⟨run, f.sum gs, parse, ?_⟩
  have values : List.Forall₂ (fun (a : Expr) v => a.exactly [(['A'], .int 7), (['B'], .int 2),
      (['C'], .bool true)] = some v) [.binary .minus (.name ['A']) (.name ['B']), .name ['C']]
      [((7 : ℤ) : ℚ) - (2 : ℤ), ((1 : ℤ) : ℚ)] :=
    .cons (exactly_minus_eq_some_iff.mpr ⟨_, _, rfl, rfl, rfl⟩) (.cons rfl .nil)
  exact (mean (.inl (sums.mpr ranks)) (by decide) _ _ values).trans (by norm_num)

end Haulage
