/-
# What a rounding rounds

A rounding is spelled out by writing its amount in front of a multiplication, without parentheses.
So what is multiplied is not the amount but the last term of it: `Form.scaled` is the amount with its
last term multiplied, and `parsed_expand_rounding` says that this is what is read.  The whole amount
is rounded exactly if it is a term itself, that is, no choice, comparison or sum outside parentheses.
-/
import Haulage.Proofs.Formula.Numeral
import Haulage.Proofs.Formula.Parsing
import Haulage.Proofs.Shorthand.Pass

namespace Haulage

open Lexer (Lexes)

/-! ## 1. The last term of a form -/

/-- The form with its last term multiplied by a number. -/
def Form.scaled (factor : Float) : Form → Form
  | .choice c a b => .choice c a (b.scaled factor)
  | .binary o l r =>
    if (Form.binary o l r).rank < 3 then .binary o l (r.scaled factor)
    else .binary .times (.binary o l r) (.number factor)
  | f => .binary .times f (.number factor)

namespace Form

variable (x : Float)

theorem lexemes_scaled (f : Form) :
    (f.scaled x).lexemes = f.lexemes ++ [.symbol (.operator .times), .number x] := by
  fun_induction Form.scaled x f with
  | case1 c a b ih => simp [lexemes, ih]
  | case2 o l r loose ih => simp [lexemes, ih]
  | case3 o l r tight => rfl
  | case4 f => simp [lexemes]

theorem rank_scaled (f : Form) : (f.scaled x).rank = min f.rank 3 := by
  have product (f : Form) : (Form.binary .times f (.number x)).rank = 3 := rfl
  fun_induction Form.scaled x f with
  | case1 c a b ih => simp [rank]
  | case2 o l r loose ih =>
    have : (Form.binary o l (r.scaled x)).rank = (Form.binary o l r).rank := rfl
    omega
  | case3 o l r tight => rw [product]; omega
  | case4 f other other' =>
    cases f with
    | choice => exact absurd rfl (other _ _ _)
    | binary => exact absurd rfl (other' _ _ _)
    | _ => simp [rank, Operator.level?, Level.rank]

theorem WellFormed.scaled {f : Form} (wf : f.WellFormed) : (f.scaled x).WellFormed := by
  fun_induction Form.scaled x f with
  | case1 c a b ih => exact ⟨wf.1, wf.2.1, ih wf.2.2.1, wf.2.2.2⟩
  | case2 o l r loose ih =>
    refine ⟨wf.1, ih wf.2.1, ?_⟩
    have ranks := wf.2.2
    cases level : o.level? with
    | none => simp [rank, level] at loose
    | some level' =>
      rw [rank_binary_of_level level] at loose
      simp only [level, r.rank_scaled] at ranks ⊢
      omega
  | case3 o l r tight => exact ⟨wf, trivial, Nat.le_of_not_lt tight, show 3 < 6 by decide⟩
  | case4 f other other' =>
    refine ⟨wf, trivial, ?_⟩
    cases f with
    | choice => exact absurd rfl (other _ _ _)
    | binary => exact absurd rfl (other' _ _ _)
    | _ => simp [rank, Operator.level?, Level.rank]

theorem calls_scaled (f : Form) : (f.scaled x).calls = f.calls := by
  fun_induction Form.scaled x f with
  | case1 c a b ih => simp [calls, ih]
  | case2 o l r loose ih => simp [calls, ih]
  | case3 o l r tight => simp [calls]
  | case4 f => simp [calls]

/-- **Only a term is multiplied as a whole.** -/
theorem expr_scaled_iff (f : Form) :
    (f.scaled x).expr = .binary .times f.expr (.number x) ↔ 3 ≤ f.rank := by
  fun_induction Form.scaled x f with
  | case1 c a b ih => simp [expr, rank]
  | case2 o l r loose ih =>
    have other : o ≠ .times := by
      rintro rfl
      exact absurd loose (by simp [rank, Operator.level?, Level.rank])
    simp only [expr, Expr.binary.injEq, other, false_and, false_iff]
    omega
  | case3 o l r tight => simp only [expr, true_iff]; omega
  | case4 f other other' =>
    cases f with
    | choice => exact absurd rfl (other _ _ _)
    | binary => exact absurd rfl (other' _ _ _)
    | _ => simp [rank, expr]

end Form

/-! ## 2. Places -/

/-- The float by which an amount is multiplied to round it to so many places. -/
def placesFactor (n : Nat) : Float := Scientific.toFloat ⟨10 ^ n, 0⟩

/-- A quotient of a rounded expression and the factor. -/
def roundedBy (factor : Float) (product : Expr) : Expr :=
  .binary .divide (.call "round".toList [product]) (.number factor)

theorem isDecimalDigit_of_mapM {s : Text} {ds : List Nat} (h : s.mapM decimalDigit? = some ds) :
    ∀ c ∈ s, isDecimalDigit c = true := by
  induction s generalizing ds with
  | nil => exact List.forall_mem_nil _
  | cons c s ih =>
    simp only [List.mapM_cons, Option.bind_eq_bind, Option.bind_eq_some_iff] at h
    obtain ⟨d, first, ds', rest, -⟩ := h
    exact List.forall_mem_cons.mpr ⟨by simp [isDecimalDigit, first], ih rest⟩

theorem isDecimalDigit_of_readPlaces? {d : Text} {n : Nat} (h : Shorthand.readPlaces? d = some n) :
    ∀ c ∈ d, isDecimalDigit c = true := by
  unfold Shorthand.readPlaces? at h
  split at h
  · rename_i one
    exact isDecimalDigit_of_mapM one
  · rename_i two
    exact isDecimalDigit_of_mapM two
  · cases h

/-! ## 3. Roundings -/

section Spelling

variable {e d : Text} {f : Form} {n : Nat}

theorem grouped_of_places (h : Shorthand.readPlaces? d = some n) : Grouped (· ≠ ';') d :=
  .of_forall fun c hc => by
    have name := isNameChar_of_isDigitLike
      (isDigitLike_of_isDecimalDigit (isDecimalDigit_of_readPlaces? h c hc))
    refine ⟨?_, ?_, ?_⟩ <;> rintro rfl <;> exact absurd name (by decide)

theorem strip_of_places (h : Shorthand.readPlaces? d = some n) : d.strip = d :=
  strip_eq_self fun c hc => Lexer.isBlank_of_isNameChar (isNameChar_of_isDigitLike
    (isDigitLike_of_isDecimalDigit (isDecimalDigit_of_readPlaces? h c hc)))

theorem semicolonArguments_rounding (wf : f.WellFormed) (h : Lexes e f.lexemes) (plain : '"' ∉ e)
    (digits : Shorthand.readPlaces? d = some n) :
    semicolonArguments (e ++ ';' :: d) = [e.strip, d] := by
  have join : e ++ ';' :: d = Text.join ";".toList [e, d] := by simp [Text.join]
  have grouped : ∀ x ∈ [e, d], Grouped (· ≠ ';') x := by
    simpa using ⟨(f.grouped wf h plain).semicolon, grouped_of_places digits⟩
  rw [join, semicolonArguments_join (List.cons_ne_nil e [d]) grouped, List.map_cons, List.map_cons,
    List.map_nil, strip_of_places digits]

/-- The text that a rounding is spelled as. -/
def roundingText (e : Text) (factor : Nat) : Text :=
  "(round(".toList ++ e.strip ++ " * ".toList ++ digitsOf factor ++ ") / ".toList ++
    digitsOf factor ++ [')']

/-- The form that a rounding is spelled as. -/
def Form.rounding (f : Form) (factor : Nat) : Form :=
  .paren (.binary .divide (.call "round".toList (.last (f.scaled (Scientific.toFloat ⟨factor, 0⟩))))
    (.number (Scientific.toFloat ⟨factor, 0⟩)))

theorem lexes_roundingText (h : Lexes e f.lexemes) (factor : Nat) :
    Lexes (roundingText e factor) (f.rounding factor).lexemes := by
  have opens : Lexes "(".toList [.symbol .openParen] := Lexer.lexes_symbol rfl
  have spells : Lexer.Spells "round".toList (.name "round".toList) [] :=
    .name (by decide) (by decide) (by decide) rfl
  have round : Lexes "round".toList [.name "round".toList] := by
    simpa using Lexer.Lexes.token spells .nil
  have times : Lexes " * ".toList [.symbol (.operator .times)] := Lexer.lexes_spaced rfl
  have number := lexes_digitsOf factor
  have divide : Lexes " / ".toList [.symbol (.operator .divide)] := Lexer.lexes_spaced rfl
  have closes : Lexes ")".toList [.symbol .closeParen] := Lexer.lexes_symbol rfl
  have apart := (f.rounding factor).phrase.apart
  have whole : (f.rounding factor).lexemes = [[.symbol .openParen], [.name "round".toList],
      [.symbol .openParen], f.lexemes, [.symbol (.operator .times)],
      [.number (Scientific.toFloat ⟨factor, 0⟩)], [.symbol .closeParen],
      [.symbol (.operator .divide)], [.number (Scientific.toFloat ⟨factor, 0⟩)],
      [.symbol .closeParen]].flatten := by
    simp [Form.rounding, Form.lexemes, Arguments.lexemes, f.lexemes_scaled]
  rw [whole] at apart ⊢
  have out := Lexer.Lexes.flatten (.cons opens (.cons round (.cons opens (.cons h.strip (.cons times
    (.cons number (.cons closes (.cons divide (.cons number (.cons closes .nil)))))))))) apart
  unfold roundingText
  simpa using out

theorem plain_roundingText (plain : '"' ∉ e) (factor : Nat) : '"' ∉ roundingText e factor := by
  have digits : '"' ∉ digitsOf factor := fun quote =>
    absurd (Digits.digitsOf _ _ quote) (by decide)
  have strip : '"' ∉ e.strip := fun quote => plain (mem_of_mem_strip quote)
  unfold roundingText
  simp [digits, strip]

end Spelling

/-- **A rounding rounds the last term of its amount, multiplied.**  It is spelled out unless that
makes the formula too long, and what it is spelled as is read; the whole amount is rounded if and
only if it is a term. -/
theorem parsed_expand_rounding {w : Surroundings} {asked : Option Int} {e d : Text} {amount : Expr}
    {n : Nat} (read : parsed e = .ok amount) (plain : '"' ∉ e)
    (free : ∀ call ∈ amount.calls, ∀ k : Shorthand, ¬k.Names call.1)
    (digits : Shorthand.readPlaces? d = some n) (passes : 0 < passLimit w asked) :
    ∃ out, expand w asked (.text ("REDONDEAR(".toList ++ e ++ ';' :: d ++ [')'])) =
        (if w.settings.maxExpandedLength < out.length then
          .error (.formula (.expansionTooLong out.length w.settings.maxExpandedLength))
        else .ok (.text out)) ∧
      ∃ f : Form, f.WellFormed ∧ Lexes e f.lexemes ∧ f.expr = amount ∧
        parsed out = .ok (roundedBy (placesFactor n) (f.scaled (placesFactor n)).expr) ∧
        (parsed out = .ok (roundedBy (placesFactor n)
            (.binary .times amount (.number (placesFactor n)))) ↔ 3 ≤ f.rank) := by
  obtain ⟨f, wf, rfl, h⟩ := parsed_eq_ok_iff.mp read
  have lexes := lexes_roundingText h (10 ^ n)
  have plain' := plain_roundingText plain (10 ^ n)
  have free' : ∀ call ∈ (f.rounding (10 ^ n)).expr.calls, ∀ k : Shorthand, ¬k.Names call.1 := by
    have round (k : Shorthand) : ¬k.Names "round".toList := by cases k <;> decide
    rw [Form.calls_expr] at free ⊢
    simpa [Form.rounding, Form.calls, Arguments.calls, Form.calls_scaled, callExprs] using
      ⟨round, by simpa [callExprs] using free⟩
  have text : Shorthand.rounding.callText (e ++ ';' :: d) =
      "REDONDEAR(".toList ++ e ++ ';' :: d ++ [')'] := by
    simp [Shorthand.callText, Shorthand.name]
  have grouped : Grouped (fun _ => True) (e ++ ';' :: d) :=
    ((f.grouped wf h plain).mono fun _ _ => trivial).append
      (.plain trivial (by decide) (by decide) ((grouped_of_places digits).mono fun _ _ => trivial))
  have others : ∀ k ≠ Shorthand.rounding,
      Quiet (headNamed k.name.toList) (some '(') (e ++ ';' :: d) [')'] := fun k _ => by
    refine quiet_append.mpr ⟨quiet_of_free h plain free k (.cons (by decide) (by decide) (by decide) _)
      _, quiet_of_no_letters k.shorthandName (List.forall_mem_cons.mpr ⟨by decide, fun c hc => ?_⟩)⟩
    intro letter
    have digit := isDigitLike_of_isDecimalDigit (isDecimalDigit_of_readPlaces? digits c hc)
    simp [(class_of_mem_latinLetters c letter).2.1] at digit
  have spells : Shorthand.spellRounding (semicolonArguments (e ++ ';' :: d)) =
      some (roundingText e (10 ^ n)) := by
    have nonempty : e.strip.isEmpty = false := by
      cases strip : e.strip with
      | nil => exact absurd (strip ▸ h.strip).eq_nil f.phrase.ne_nil
      | cons => rfl
    rw [semicolonArguments_rounding wf h plain digits, Shorthand.spellRounding, nonempty, digits]
    rfl
  have out := @expand_callText w asked .rounding _ (fun _ => rfl) _ _ _ grouped others spells
    (fun k => quiet_of_free lexes plain' free' k .nil none) passes
  refine ⟨roundingText e (10 ^ n), text ▸ out, f, wf, h, rfl, ?_⟩
  have parse : parsed (roundingText e (10 ^ n)) =
      .ok (roundedBy (placesFactor n) (f.scaled (placesFactor n)).expr) :=
    parsed_eq_ok_iff.mpr ⟨f.rounding (10 ^ n),
      ⟨wf.scaled _, trivial, show 3 ≤ 6 ∧ 3 < 6 by decide⟩, rfl, lexes⟩
  refine ⟨parse, ?_⟩
  rw [parse, ← f.expr_scaled_iff (placesFactor n)]
  simp [roundedBy]

set_option maxRecDepth 20000 in
/-- For instance for a sum. -/
theorem parsed_expand_rounding_of_sum :
    expand .bare none (.text "REDONDEAR(A+B;2)".toList) =
        .ok (.text "(round(A+B * 100) / 100)".toList) ∧
      ∃ f : Form, f.expr = .binary .plus (.name ['A']) (.name ['B']) ∧
        parsed "(round(A+B * 100) / 100)".toList =
          .ok (roundedBy (placesFactor 2) (f.scaled (placesFactor 2)).expr) := by
  have read : parsed "A+B".toList = .ok (.binary .plus (.name ['A']) (.name ['B'])) := by cbv
  have run : expand .bare none (.text "REDONDEAR(A+B;2)".toList) =
      .ok (.text "(round(A+B * 100) / 100)".toList) := by rfl
  obtain ⟨out, same, f, -, -, expr, parse, -⟩ := @parsed_expand_rounding .bare none
    "A+B".toList "2".toList _ 2 read (by decide) nofun (by decide) (by decide)
  obtain rfl : "(round(A+B * 100) / 100)".toList = out := by
    have := run.symm.trans same
    split at this
    · cases this
    · simpa using this
  exact ⟨run, f, expr, parse⟩

end Haulage
