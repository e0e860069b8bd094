/-
# What can come of a formula

A text without variables evaluates to a finite number, or fails in a way that is the formula's own
fault -- but for two ways in which it can go astray.  The spread of numbers that are not all finite
fails in a way that evaluation does not take for the formula's own, and so does the check at the end
on an integer beyond the floats.  `evaluateText_outcome` says that nothing else strays.

An evaluation gets to such a spread exactly if it `Applies` the function to the numbers.  The fault
of a function that is applied is the fault of the whole (`Expr.Applies.eval_eq_error`), as
evaluation goes no further.
-/
import Haulage.Proofs.Value.Scalar
import Haulage.Formula.Evaluation

namespace Haulage

open Value (IsScalar Tame Unbounded)

/-! ## 1. Functions -/

/-- Is the fault the formula's own, once the evaluation is over? -/
def Fault.Own : Fault → Prop
  | formula f => f.kind = .evaluation
  | value f => f.Own

/-- The result in an evaluation is a scalar, or its fault the formula's own. -/
abbrev Settled : Except Fault Value → Prop := Ensures Fault.Own IsScalar

theorem Ensures.liftValue {α : Type} {good : α → Prop} {r : Except ValueFault α}
    (h : Ensures ValueFault.Own good r) : Ensures Fault.Own good (liftValue r) :=
  h.mapError fun _ own => own

namespace Function

theorem own_places? (v : Value) : Ensures Fault.Own (fun _ => True) (places? v) := by
  unfold places?
  refine (Ensures.liftValue v.tame_absolute).bind fun size scalar => ?_
  refine (Ensures.liftValue (Value.own_related .greater scalar (b := .int _) trivial)).bind
    fun tooFar _ => ?_
  split
  · rfl
  · refine (Ensures.liftValue v.own_toInteger).bind fun n _ => ?_
    split
    · trivial
    · rfl

theorem own_roundPlaces (size : Float) (places : Int) :
    Ensures ValueFault.Own (fun _ => True) (roundPlaces size places) := by
  unfold roundPlaces
  exact (Value.own_floorInteger _).bind fun whole _ =>
    (Value.own_toFloat _).bind fun x _ => trivial

theorem settled_roundTo {v : Value} (hv : v.IsScalar) (p : Value) : Settled (roundTo v p) := by
  unfold roundTo
  refine (own_places? p).bind fun places _ => ?_
  refine (Ensures.liftValue v.tame_absolute).bind fun size scalar => ?_
  refine (Ensures.liftValue (Value.own_toReal scalar)).bind fun size _ => ?_
  refine (Ensures.liftValue (own_roundPlaces size places)).bind fun rounded _ => ?_
  split
  · trivial
  · exact (Ensures.liftValue (Value.own_toReal hv)).bind fun x _ => trivial

theorem tame_squareRoot {v : Value} (h : v.IsScalar) : Tame (squareRoot v) := by
  refine (Value.own_toReal h).bind fun x _ => ?_
  split
  · rfl
  · trivial

theorem tame_wholeNumber {rounding : Float → Except ValueFault Int}
    (own : ∀ x, Ensures ValueFault.Own (fun _ => True) (rounding x)) {v : Value} (h : v.IsScalar) :
    Tame (wholeNumber rounding v) := by
  unfold wholeNumber
  split
  · exact (Value.own_toFloat _).map fun _ _ => trivial
  · exact (Value.own_toReal h).bind fun x _ => (own x).bind fun n _ =>
      (Value.own_toFloat _).map fun _ _ => trivial

theorem own_notOneArgument (name : String) (given : Nat) : (notOneArgument name given).Own := rfl

theorem own_argumentFault (name : String) (least most : List String) (given : Nat) :
    (argumentFault name least most given).Own := rfl

section

variable {vs : List Value} (all : ∀ v ∈ vs, v.IsScalar)

include all

theorem spreadArguments_of_scalars : spreadArguments vs = vs := by
  unfold spreadArguments
  split
  · exact (all _ (.head _)).elim
  · rfl

theorem settled_unary {fault : Nat → Fault} (own : ∀ n, (fault n).Own)
    {f : Value → Except ValueFault Value} (step : ∀ v, v.IsScalar → Tame (f v)) :
    Settled (unary fault f vs) := by
  unfold unary
  split
  · exact Ensures.liftValue (step _ (all _ (.head _)))
  · exact own _

theorem settled_binary (name first second : String) {f : Value → Value → Except ValueFault Value}
    (step : ∀ a b, a.IsScalar → b.IsScalar → Tame (f a b)) :
    Settled (binary name first second f vs) := by
  unfold binary
  split
  · exact Ensures.liftValue (step _ _ (all _ (.head _)) (all _ (.tail _ (.head _))))
  · rfl

/-- **Functions settle what they are applied to**, but for a spread of numbers that are not all
finite. -/
theorem settled_apply (f : Function) (bounded : ¬ (f = .std ∧ Unbounded vs)) :
    Settled (f.apply vs) := by
  have same := spreadArguments_of_scalars all
  have spread : ∀ v ∈ spreadArguments vs, v.IsScalar := same.symm ▸ all
  cases f with
  | add => exact settled_binary all _ _ _ fun a b ha hb => Value.tame_add ha hb
  | subtract => exact settled_binary all _ _ _ fun a b _ _ => Value.tame_subtract a b
  | multiply => exact settled_binary all _ _ _ fun a b ha hb => Value.tame_multiply ha hb
  | divide => exact settled_binary all _ _ _ fun a b _ _ => Value.tame_divide a b
  | pow => exact settled_binary all _ _ _ fun a b ha hb => Value.tame_raise ha hb
  | mod => exact settled_binary all _ _ _ fun a b _ hb => Value.tame_modulo a hb
  | sqrt => exact settled_unary all (own_notOneArgument _) fun v hv => tame_squareRoot hv
  | abs => exact settled_unary all (own_notOneArgument _) fun v _ => v.tame_absolute
  | ceil =>
    exact settled_unary all (own_argumentFault _ _ _) fun v hv =>
      tame_wholeNumber Value.own_ceilInteger hv
  | floor =>
    exact settled_unary all (own_argumentFault _ _ _) fun v hv =>
      tame_wholeNumber Value.own_floorInteger hv
  | round =>
    match vs with
    | [] => rfl
    | [v] => exact settled_roundTo (all v (.head _)) _
    | [v, p] => exact settled_roundTo (all v (.head _)) p
    | _ :: _ :: _ :: _ => rfl
  | max => exact Ensures.liftValue (Value.tame_extremum spread _ _)
  | min => exact Ensures.liftValue (Value.tame_extremum spread _ _)
  | mean => exact Ensures.liftValue (Value.tame_mean _)
  | median => exact Ensures.liftValue (Value.tame_median spread)
  | sum => exact Ensures.liftValue (Value.tame_total spread)
  | std =>
    rcases Value.spread_cases (spreadArguments vs) with ⟨unbounded, -⟩ | ⟨-, tame⟩
    · exact absurd ⟨rfl, same ▸ unbounded⟩ bounded
    · exact Ensures.liftValue tame

theorem apply_std_of_unbounded (unbounded : Unbounded vs) :
    std.apply vs = .error (.value .notFiniteSpread) := by
  change liftValue (Value.spread (spreadArguments vs)) = _
  rw [spreadArguments_of_scalars all]
  rcases Value.spread_cases vs with ⟨-, fault⟩ | ⟨bounded, -⟩
  · rw [fault]
    rfl
  · exact absurd unbounded bounded

end

example : std.apply [.float 1, .float (1 / 0)] = .error (.value .notFiniteSpread) := rfl

end Function

/-! ## 2. What an evaluation applies -/

namespace Expr

/-- Evaluating the expression comes to the function with the values as its arguments. -/
inductive Applies (bindings : Bindings) : Expr → Function → List Value → Prop
  | call {name f args vs} (called : calledFunction? name = some f)
      (values : evalAll bindings args = .ok vs) : Applies bindings (.call name args) f vs
  | argument {name g before e after us f vs} (called : calledFunction? name = some g)
      (values : evalAll bindings before = .ok us) (inside : Applies bindings e f vs) :
      Applies bindings (.call name (before ++ e :: after)) f vs
  | operand {sign e f vs} (inside : Applies bindings e f vs) :
      Applies bindings (.signed sign e) f vs
  | left {o l r f vs} (inside : Applies bindings l f vs) : Applies bindings (.binary o l r) f vs
  | right {o l r a f vs} (value : l.eval bindings = .ok a) (inside : Applies bindings r f vs) :
      Applies bindings (.binary o l r) f vs
  | condition {c a b f vs} (inside : Applies bindings c f vs) :
      Applies bindings (.conditional c a b) f vs
  | whenTrue {c a b v f vs} (value : c.eval bindings = .ok v) (holds : conditionHolds v = .ok true)
      (inside : Applies bindings a f vs) : Applies bindings (.conditional c a b) f vs
  | whenFalse {c a b v f vs} (value : c.eval bindings = .ok v)
      (fails : conditionHolds v = .ok false) (inside : Applies bindings b f vs) :
      Applies bindings (.conditional c a b) f vs

variable {bindings : Bindings}

theorem evalAll_append_of_error {before after : List Expr} {e : Expr} {us : List Value}
    {fault : Fault} (values : evalAll bindings before = .ok us)
    (h : e.eval bindings = .error fault) :
    evalAll bindings (before ++ e :: after) = .error fault := by
  induction before generalizing us with
  | nil => rw [List.nil_append, evalAll, h]
  | cons e' before ih =>
    rw [evalAll] at values
    cases first : e'.eval bindings with
    | error f => simp [first] at values
    | ok v =>
      cases rest : evalAll bindings before with
      | error f => simp [first, rest] at values
      | ok vs => rw [List.cons_append, evalAll, first, ih rest]

/-- **The fault of a function that is applied is the fault of the whole.** -/
theorem Applies.eval_eq_error {e : Expr} {f : Function} {vs : List Value} {fault : Fault}
    (h : e.Applies bindings f vs) (failed : f.apply vs = .error fault) :
    e.eval bindings = .error fault := by
  induction h with
  | call called values => simp [eval, called, values, failed]
  | argument called values _ ih => simp [eval, called, evalAll_append_of_error values (ih failed)]
  | operand _ ih => simp [eval, ih failed]
  | left _ ih => simp [eval, ih failed]
  | right value _ ih => simp [eval, value, ih failed]
  | condition _ ih => simp [eval, ih failed]
  | whenTrue value holds _ ih => simp [eval, value, holds, ih failed]
  | whenFalse value fails _ ih => simp [eval, value, fails, ih failed]

/-- Evaluating the expression comes to the spread of numbers that are not all finite. -/
def SpreadsUnbounded (bindings : Bindings) (e : Expr) : Prop :=
  ∃ vs, e.Applies bindings .std vs ∧ Unbounded vs

theorem SpreadsUnbounded.eval_eq_error {e : Expr} (h : e.SpreadsUnbounded bindings) :
    e.eval bindings = .error (.value .notFiniteSpread) := by
  obtain ⟨vs, applies, unbounded⟩ := h
  refine applies.eval_eq_error (Function.apply_std_of_unbounded (fun v mem => ?_) unbounded)
  have number := unbounded.1 v mem
  cases v <;> trivial

/-! ## 3. Evaluation -/

theorem settled_conditionHolds (v : Value) :
    Ensures Fault.Own (fun _ => True) (conditionHolds v) := by
  unfold conditionHolds
  split
  · rfl
  · trivial

theorem settled_sign (sign : Sign) (v : Value) : Tame (sign.apply v) := by
  cases sign with
  | plus => exact v.tame_affirm
  | minus => exact v.tame_negate

theorem settled_operator (o : Operator) {a b : Value} (ha : a.IsScalar) (hb : b.IsScalar) :
    Tame (o.apply a b) := by
  cases o with
  | plus => exact Value.tame_add ha hb
  | minus => exact Value.tame_subtract a b
  | times => exact Value.tame_multiply ha hb
  | divide => exact Value.tame_divide a b
  | modulo => exact Value.tame_modulo a hb
  | power => exact Value.tame_raise ha hb
  | greater | less | atLeast | atMost =>
    exact (Value.own_related _ ha hb).map fun _ _ => trivial
  | equal | notEqual => trivial

mutual

/-- **An evaluation settles what it computes**, unless it comes to an unbounded spread. -/
theorem settled_eval (scalars : ∀ entry ∈ bindings, entry.2.IsScalar) :
    (e : Expr) → e.SpreadsUnbounded bindings ∨ Settled (e.eval bindings)
  | .number _ => .inr trivial
  | .text _ => .inr trivial
  | .name n => by
    rw [eval]
    cases found : bindings.lookup n with
    | none => exact .inr rfl
    | some v =>
      obtain ⟨front, back, rfl, -⟩ := List.lookup_eq_some_iff.mp found
      exact .inr (scalars (n, v) (by simp))
  | .signed sign e => by
    rw [eval]
    rcases settled_eval scalars e with ⟨vs, applies, unbounded⟩ | settled
    · exact .inl ⟨vs, .operand applies, unbounded⟩
    cases value : e.eval bindings with
    | error f => exact .inr (by rwa [value] at settled)
    | ok v => exact .inr (Ensures.liftValue (settled_sign sign v))
  | .binary o l r => by
    rw [eval]
    rcases settled_eval scalars l with ⟨vs, applies, unbounded⟩ | settled
    · exact .inl ⟨vs, .left applies, unbounded⟩
    cases value : l.eval bindings with
    | error f => exact .inr (by rwa [value] at settled)
    | ok a =>
      rcases settled_eval scalars r with ⟨vs, applies, unbounded⟩ | settled'
      · exact .inl ⟨vs, .right value applies, unbounded⟩
      cases value' : r.eval bindings with
      | error f => exact .inr (by rwa [value'] at settled')
      | ok b =>
        rw [value] at settled
        rw [value'] at settled'
        exact .inr (Ensures.liftValue (settled_operator o settled settled'))
  | .conditional c a b => by
    rw [eval]
    rcases settled_eval scalars c with ⟨vs, applies, unbounded⟩ | settled
    · exact .inl ⟨vs, .condition applies, unbounded⟩
    cases value : c.eval bindings with
    | error f => exact .inr (by rwa [value] at settled)
    | ok v =>
      dsimp only
      have own := settled_conditionHolds v
      cases holds : conditionHolds v with
      | error f => exact .inr (by rwa [holds] at own)
      | ok holds' =>
        cases holds'
        · exact (settled_eval scalars b).imp_left fun ⟨vs, applies, unbounded⟩ =>
            ⟨vs, .whenFalse value holds applies, unbounded⟩
        · exact (settled_eval scalars a).imp_left fun ⟨vs, applies, unbounded⟩ =>
            ⟨vs, .whenTrue value holds applies, unbounded⟩
  | .call function args => by
    rw [eval]
    cases called : calledFunction? function with
    | none => exact .inr rfl
    | some f =>
      dsimp only
      rcases settled_evalAll scalars args with
        ⟨before, e, after, us, rfl, values, vs, applies, unbounded⟩ | settled
      · exact .inl ⟨vs, .argument called values applies, unbounded⟩
      cases values : evalAll bindings args with
      | error f => exact .inr (by rwa [values] at settled)
      | ok vs =>
        rw [values] at settled
        by_cases unbounded : f = .std ∧ Unbounded vs
        · obtain ⟨rfl, unbounded⟩ := unbounded
          exact .inl ⟨vs, .call called values, unbounded⟩
        · exact .inr (f.settled_apply settled unbounded)

/-- Arguments are settled one by one, unless one comes to an unbounded spread. -/
theorem settled_evalAll (scalars : ∀ entry ∈ bindings, entry.2.IsScalar) : (es : List Expr) →
    (∃ before e after us, es = before ++ e :: after ∧ evalAll bindings before = .ok us ∧
      e.SpreadsUnbounded bindings) ∨
    Ensures Fault.Own (fun vs => ∀ v ∈ vs, v.IsScalar) (evalAll bindings es)
  | [] => .inr (List.forall_mem_nil _)
  | e :: es => by
    rw [evalAll]
    rcases settled_eval scalars e with spreads | settled
    · exact .inl ⟨[], e, es, [], rfl, rfl, spreads⟩
    cases value : e.eval bindings with
    | error f => exact .inr (by rwa [value] at settled)
    | ok v =>
      rw [value] at settled
      rcases settled_evalAll scalars es with
        ⟨before, e', after, us, rfl, values, spreads⟩ | settled'
      · refine .inl ⟨e :: before, e', after, v :: us, rfl, ?_, spreads⟩
        rw [evalAll, value, values]
      cases values : evalAll bindings es with
      | error f => exact .inr (by rwa [values] at settled')
      | ok vs =>
        rw [values] at settled'
        exact .inr (List.forall_mem_cons.mpr ⟨settled, settled'⟩)

end

end Expr

/-! ## 4. Texts -/

/-- The text stands for an expression that comes to the spread of numbers that are not all
finite. -/
def SpreadsUnbounded (s : Text) : Prop :=
  ∃ e, readExpression s = .ok e ∧ e.SpreadsUnbounded []

/-- The text stands for an expression whose value is an integer beyond the floats. -/
def IsBeyondFloats (s : Text) : Prop :=
  ∃ e n, readExpression s = .ok e ∧ e.eval [] = .ok (.int n) ∧ Exact.ofInt? n = none

theorem isFinite_of_ofInt? {n : Int} {x : Float} (h : Exact.ofInt? n = some x) :
    x.isFinite = true := by
  unfold Exact.ofInt? at h
  dsimp only at h
  split at h
  · rename_i finite
    cases h
    exact finite
  · cases h

/-- The check at the end accepts finite floats and integers that are near one, and turns down
everything else as the formula's own fault -- but an integer beyond the floats. -/
theorem settled_finiteNumber {v : Value} (scalar : v.IsScalar)
    (near : ∀ n, v = .int n → Exact.ofInt? n ≠ none) :
    Ensures (fun f => ∃ g, f = .formula g ∧ g.kind = .evaluation) (fun x => x.isFinite = true)
      (finiteNumber v) := by
  cases v with
  | int n =>
    obtain ⟨x, found⟩ := Option.ne_none_iff_exists'.mp (near n rfl)
    have run : finiteNumber (.int n) = .ok x := by
      simp [finiteNumber, Number.toFloat, Number.toFloat?, found, liftValue, Except.mapError]
    rw [run]
    exact isFinite_of_ofInt? found
  | float x =>
    unfold finiteNumber
    dsimp only
    split
    · assumption
    · exact ⟨_, rfl, rfl⟩
  | bool | text => exact ⟨_, rfl, rfl⟩
  | _ => exact scalar.elim

theorem finiteNumber_of_beyond {n : Int} (beyond : Exact.ofInt? n = none) :
    finiteNumber (.int n) = .error (.value .integerTooLarge) := by
  simp [finiteNumber, Number.toFloat, Number.toFloat?, beyond, liftValue, Except.mapError]

theorem ofEvaluation_of_own {f : Fault} (own : f.Own) :
    ∃ g, Fault.ofEvaluation f = .formula g ∧ g.kind = .evaluation := by
  cases f with
  | formula g => exact ⟨g, rfl, own⟩
  | value f =>
    have own : Fault.isFormulas f = true := own
    exact ⟨.operation f, by simp [Fault.ofEvaluation, own], rfl⟩

/-- A text has a finite value, or a fault of its own, or it strays in one of two ways. -/
theorem evaluateText_cases (s : Text) :
    (SpreadsUnbounded s ∧ evaluateText s = .error (.value .notFiniteSpread)) ∨
    (IsBeyondFloats s ∧ evaluateText s = .error (.value .integerTooLarge)) ∨
    (∃ x, evaluateText s = .ok x ∧ x.isFinite = true) ∨
    ∃ f, evaluateText s = .error (.formula f) ∧ f.kind ≠ .size := by
  unfold evaluateText
  cases read : readExpression s with
  | error f => exact .inr (.inr (.inr ⟨_, rfl, nofun⟩))
  | ok e =>
    dsimp only
    unfold Expr.evaluate
    have scalars : ∀ entry ∈ ([] : Bindings), entry.2.IsScalar := List.forall_mem_nil _
    rcases Expr.settled_eval scalars e with spreads | settled
    · rw [spreads.eval_eq_error]
      exact .inl ⟨⟨e, read, spreads⟩, rfl⟩
    cases value : e.eval [] with
    | error f =>
      rw [value] at settled
      obtain ⟨g, own, kind⟩ := ofEvaluation_of_own settled
      exact .inr (.inr (.inr ⟨g, congrArg Except.error own, by simp [kind]⟩))
    | ok v =>
      rw [value] at settled
      change _ ∨ _ ∧ finiteNumber v = _ ∨ (∃ x, finiteNumber v = _ ∧ _) ∨
        ∃ f, finiteNumber v = _ ∧ _
      by_cases near : ∀ n, v = .int n → Exact.ofInt? n ≠ none
      · have result := settled_finiteNumber settled near
        cases run : finiteNumber v with
        | ok x =>
          rw [run] at result
          exact .inr (.inr (.inl ⟨x, rfl, result⟩))
        | error f =>
          rw [run] at result
          obtain ⟨g, rfl, kind⟩ := result
          exact .inr (.inr (.inr ⟨g, rfl, by simp [kind]⟩))
      · simp only [not_forall, not_not] at near
        obtain ⟨n, rfl, beyond⟩ := near
        exact .inr (.inl ⟨⟨e, n, read, value, beyond⟩, finiteNumber_of_beyond beyond⟩)

theorem evaluateText_of_spreadsUnbounded {s : Text} (h : SpreadsUnbounded s) :
    evaluateText s = .error (.value .notFiniteSpread) := by
  obtain ⟨e, read, spreads⟩ := h
  rw [evaluateText, read]
  dsimp only
  rw [Expr.evaluate, spreads.eval_eq_error]
  rfl

theorem evaluateText_of_isBeyondFloats {s : Text} (h : IsBeyondFloats s) :
    evaluateText s = .error (.value .integerTooLarge) := by
  obtain ⟨e, n, read, value, beyond⟩ := h
  rw [evaluateText, read]
  dsimp only
  rw [Expr.evaluate, value]
  exact finiteNumber_of_beyond beyond

/-- **What comes of a text.**  It evaluates to a finite number or has a fault of its form or of its
evaluation, unless it comes to the spread of numbers that are not all finite or to an integer beyond
the floats; these two have faults that are no formula's. -/
theorem evaluateText_outcome (s : Text) :
    (evaluateText s = .error (.value .notFiniteSpread) ↔ SpreadsUnbounded s) ∧
    (evaluateText s = .error (.value .integerTooLarge) ↔ IsBeyondFloats s) ∧
    (((∃ x, evaluateText s = .ok x ∧ x.isFinite = true) ∨
        ∃ f, evaluateText s = .error (.formula f) ∧ f.kind ≠ .size) ↔
      ¬ SpreadsUnbounded s ∧ ¬ IsBeyondFloats s) := by
  have spread := evaluateText_of_spreadsUnbounded (s := s)
  have beyond := evaluateText_of_isBeyondFloats (s := s)
  rcases evaluateText_cases s with ⟨h, run⟩ | ⟨h, run⟩ | ⟨x, run, finite⟩ | ⟨f, run, kind⟩
  · have other : ¬ IsBeyondFloats s := fun h' => by simp [run] at beyond; exact beyond h'
    simp [run, h, other]
  · have other : ¬ SpreadsUnbounded s := fun h' => by simp [run] at spread; exact spread h'
    simp [run, h, other]
  · simp only [run, reduceCtorEq, imp_false] at spread beyond
    simp [run, spread, beyond, finite]
  · simp only [run, reduceCtorEq, imp_false, Except.error.injEq] at spread beyond
    simp [run, spread, beyond, kind]

end Haulage
