/-
# The sign of a zero in formulas

The functions and operators of formulas take values that are the same up to the sign of a zero to
results that agree (`Function.agree_apply`, `Operator.agree_apply`, `Sign.agree_apply`).

Rounding to places is the one to look at.  It takes the sign of what it rounds, but only where the
result is no zero, and then what it rounds is none.
-/
import Haulage.Proofs.Value.ZeroSign

namespace Haulage

open Float.Model (UnpackedFloat)
open Value (eq_of_same)

/-! ## 1. Rounding -/

namespace Function

/-- The float that is no number. -/
def undefined : Float := .ofModel (.pack .notANumber)

/-- Zero rounded to places is zero, or undefined where a float cannot say the places. -/
theorem roundPlaces_zero {places : Int} {x : Float} (h : roundPlaces 0 places = .ok x) :
    (x == 0) = true ∨ x = undefined := by
  unfold roundPlaces at h
  generalize tenToThe places = factor at h
  have h : (floorInteger (0 * factor + 0.5) >>= fun n => (Number.int n).toFloat >>= fun whole =>
    .ok (whole / factor)) = .ok x := h
  have product : 0 * factor = .ofModel (.pack (.mul .binary64 (.zero .positive)
    factor.toModel.unpack)) := rfl
  have quotient : 0 / factor = .ofModel (.pack (.div .binary64 (.zero .positive)
    factor.toModel.unpack)) := rfl
  have half (s : UnpackedFloat.Sign) :
      (floorInteger (.ofModel (.pack (.zero s)) + 0.5) >>= fun n => (Number.int n).toFloat) =
        .ok 0 := by
    cases s <;> rfl
  have none : (floorInteger (undefined + 0.5) >>= fun n => (Number.int n).toFloat) =
      .error .undefinedFloat := rfl
  have zero (s : UnpackedFloat.Sign) : (Float.ofModel (.pack (.zero s)) == 0) = true := by
    cases s <;> rfl
  rw [product, ← bind_assoc] at h
  match parts : factor.toModel.unpack with
  | .notANumber | .infinity _ =>
    -- nothing is left whose floor could be taken
    rw [parts] at h
    exact absurd ((congrArg (· >>= _) none).symm.trans h) nofun
  | .zero s =>
    rw [parts] at h quotient
    obtain rfl : 0 / factor = x := Except.ok.inj ((congrArg (· >>= _) (half _)).symm.trans h)
    exact .inr quotient
  | .finite s m e pos =>
    rw [parts] at h quotient
    obtain rfl : 0 / factor = x := Except.ok.inj ((congrArg (· >>= _) (half _)).symm.trans h)
    rw [quotient]
    exact .inl (zero _)

theorem places?_eq {v v' : Value} (h : v.dropZeroSign = v'.dropZeroSign) : places? v = places? v' :=
  eq_of_same rfl h

theorem agree_squareRoot {v v' : Value} (h : v.dropZeroSign = v'.dropZeroSign) :
    Agree (squareRoot v) (squareRoot v') :=
  @eq_of_same _ (fun v => (squareRoot v).map Value.dropZeroSign) rfl v v' h

theorem ceiling_eq {v v' : Value} (h : v.dropZeroSign = v'.dropZeroSign) :
    wholeNumber ceilInteger v = wholeNumber ceilInteger v' :=
  eq_of_same rfl h

theorem wholeNumber_floor_eq {v v' : Value} (h : v.dropZeroSign = v'.dropZeroSign) :
    wholeNumber floorInteger v = wholeNumber floorInteger v' :=
  eq_of_same rfl h

/-- What rounding gives is undefined or zero of a zero, so a zero's sign is not seen. -/
theorem agree_roundTo {v v' p p' : Value} (hv : v.dropZeroSign = v'.dropZeroSign)
    (hp : p.dropZeroSign = p'.dropZeroSign) : Agree (roundTo v p) (roundTo v' p') := by
  have same (p : Value) : Agree (roundTo (.float (-0)) p) (roundTo (.float 0) p) := by
    have signs : Exact.withSignOf undefined (-0) = Exact.withSignOf undefined 0 := rfl
    unfold roundTo
    refine .after fun places => ?_
    change Agree (liftValue (roundPlaces 0 places) >>= fun rounded => _)
      (liftValue (roundPlaces 0 places) >>= fun rounded => _)
    cases rounding : roundPlaces 0 places with
    | error f => rfl
    | ok rounded =>
      change Agree (if rounded == 0 then _ else _) (if rounded == 0 then _ else _)
      split
      · rfl
      · rename_i nonzero
        obtain rfl := (roundPlaces_zero rounding).resolve_left nonzero
        exact .ok (congrArg (fun x => Value.dropZeroSign (.float x)) signs)
  have first : Agree (roundTo v p) (roundTo v' p) :=
    @eq_of_same _ (fun v => (roundTo v p).map Value.dropZeroSign) (same p) v v' hv
  have second : roundTo v' p = roundTo v' p' := by rw [roundTo, roundTo, places?_eq hp]
  exact second ▸ first

/-! ## 2. Functions and operators -/

section Arguments

variable {vs vs' : List Value} (h : vs.map Value.dropZeroSign = vs'.map Value.dropZeroSign)

include h

theorem spreadArguments_eq : (spreadArguments vs).map Value.dropZeroSign =
    (spreadArguments vs').map Value.dropZeroSign := by
  have settled (vs : List Value) :
      (spreadArguments (vs.map Value.dropZeroSign)).map Value.dropZeroSign =
        (spreadArguments vs).map Value.dropZeroSign := by
    match vs with
    | [] => rfl
    | [v] => cases v <;> simp [spreadArguments, Value.dropZeroSign]
    | v :: w :: vs => simp [spreadArguments]
  rw [← settled vs, h, settled vs']

theorem agree_unary {f : Value → Except ValueFault Value}
    (step : ∀ {v v' : Value}, v.dropZeroSign = v'.dropZeroSign → Agree (f v) (f v'))
    (fault : Nat → Fault) : Agree (unary fault f vs) (unary fault f vs') := by
  have length : vs.length = vs'.length := by simpa using congrArg List.length h
  match vs, vs', length with
  | [], [], _ => rfl
  | [v], [v'], _ => exact (step (List.cons.inj h).1).mapError _
  | v :: w :: vs, v' :: w' :: vs', length =>
    change Agree (.error (fault (v :: w :: vs).length)) (.error (fault (v' :: w' :: vs').length))
    rw [length]
    rfl

theorem agree_binary {f : Value → Value → Except ValueFault Value}
    (step : ∀ {a a' b b' : Value}, a.dropZeroSign = a'.dropZeroSign →
      b.dropZeroSign = b'.dropZeroSign → Agree (f a b) (f a' b')) (name first second : String) :
    Agree (binary name first second f vs) (binary name first second f vs') := by
  have length : vs.length = vs'.length := by simpa using congrArg List.length h
  match vs, vs', length with
  | [], [], _ => rfl
  | [v], [v'], _ => rfl
  | [a, b], [a', b'], _ =>
    obtain ⟨ha, rest⟩ := List.cons.inj h
    exact (step ha (List.cons.inj rest).1).mapError _
  | a :: b :: c :: vs, a' :: b' :: c' :: vs', length =>
    change Agree (.error (argumentFault _ _ _ (a :: b :: c :: vs).length))
      (.error (argumentFault _ _ _ (a' :: b' :: c' :: vs').length))
    rw [length]
    rfl

theorem agree_round : Agree (round.apply vs) (round.apply vs') := by
  have length : vs.length = vs'.length := by simpa using congrArg List.length h
  match vs, vs', length with
  | [], [], _ => rfl
  | [v], [v'], _ => exact agree_roundTo (List.cons.inj h).1 rfl
  | [v, p], [v', p'], _ =>
    obtain ⟨hv, rest⟩ := List.cons.inj h
    exact agree_roundTo hv (List.cons.inj rest).1
  | a :: b :: c :: vs, a' :: b' :: c' :: vs', length =>
    change Agree (.error (argumentFault _ _ _ (a :: b :: c :: vs).length))
      (.error (argumentFault _ _ _ (a' :: b' :: c' :: vs').length))
    rw [length]
    rfl

/-- **Functions do not see the sign of a zero**, but in that of a zero that they give. -/
theorem agree_apply (f : Function) : Agree (f.apply vs) (f.apply vs') := by
  have spread := spreadArguments_eq h
  cases f with
  | add => exact agree_binary h Value.agree_add _ _ _
  | subtract => exact agree_binary h Value.agree_subtract _ _ _
  | multiply => exact agree_binary h Value.agree_multiply _ _ _
  | divide => exact agree_binary h Value.agree_divide _ _ _
  | pow => exact agree_binary h Value.agree_raise _ _ _
  | mod => exact agree_binary h Value.agree_modulo _ _ _
  | sqrt => exact agree_unary h agree_squareRoot _
  | abs => exact agree_unary h (fun same => .of_eq (Value.absolute_eq same)) _
  | ceil => exact agree_unary h (fun same => .of_eq (ceiling_eq same)) _
  | floor => exact agree_unary h (fun same => .of_eq (wholeNumber_floor_eq same)) _
  | round => exact agree_round h
  | max => exact (Value.agree_extremum spread _ _).mapError _
  | min => exact (Value.agree_extremum spread _ _).mapError _
  | sum => exact (Value.agree_total spread).mapError _
  | mean => exact (Agree.of_eq (Value.mean_eq spread)).mapError _
  | median => exact (Value.agree_median spread).mapError _
  | std => exact (Agree.of_eq (Value.spread_eq spread)).mapError _

end Arguments

end Function

/-- **Operators do not see the sign of a zero**, but in that of a zero that they give. -/
theorem Operator.agree_apply (o : Operator) {a a' b b' : Value}
    (ha : a.dropZeroSign = a'.dropZeroSign) (hb : b.dropZeroSign = b'.dropZeroSign) :
    Agree (o.apply a b) (o.apply a' b') := by
  cases o with
  | plus => exact Value.agree_add ha hb
  | minus => exact Value.agree_subtract ha hb
  | times => exact Value.agree_multiply ha hb
  | divide => exact Value.agree_divide ha hb
  | modulo => exact Value.agree_modulo ha hb
  | power => exact Value.agree_raise ha hb
  | greater | less | atLeast | atMost =>
    rw [apply, apply, Value.related_eq ha hb]
    rfl
  | equal | notEqual =>
    rw [apply, apply, Value.equals_eq ha hb]
    rfl

theorem Sign.agree_apply (sign : Sign) {v v' : Value} (h : v.dropZeroSign = v'.dropZeroSign) :
    Agree (sign.apply v) (sign.apply v') := by
  cases sign with
  | plus => exact Value.agree_affirm h
  | minus => exact Value.agree_negate h

theorem conditionHolds_eq {v v' : Value} (h : v.dropZeroSign = v'.dropZeroSign) :
    conditionHolds v = conditionHolds v' :=
  eq_of_same rfl h

end Haulage
