/-
# The sign of a zero in values

`Value.dropZeroSign` makes minus zero zero.  Two results `Agree` when they are the same fault, or
values that are the same up to the sign of a zero.  Every operation and function of the formula
language takes values that are the same up to it to results that agree.

An operation is shown to do so one argument at a time, and there are only two values to look at:
minus zero and zero (`eq_of_same`).  What is decided on the way -- an order, a condition, an integer
-- does not depend on the sign at all.
-/
import Haulage.Proofs.Number.ZeroSign
import Haulage.Proofs.Sorting
import Haulage.Formula.Evaluation

namespace Haulage

namespace Value

/-- The value, minus zero made zero. -/
def dropZeroSign : Value → Value
  | float x => float (Haulage.dropZeroSign x)
  | v => v

theorem dropZeroSign_eq_or (v : Value) :
    v.dropZeroSign = v ∨ v = float (-0) ∧ v.dropZeroSign = float 0 := by
  cases v with
  | float x =>
    rcases Haulage.dropZeroSign_eq_or x with same | ⟨rfl, zero⟩
    · exact .inl (congrArg float same)
    · exact .inr ⟨rfl, congrArg float zero⟩
  | _ => exact .inl rfl

/-- What is the same of both zeros is the same of all values that are the same up to the sign of
one. -/
theorem eq_of_same {β : Type} {f : Value → β} (same : f (float (-0)) = f (float 0)) {v v' : Value}
    (h : v.dropZeroSign = v'.dropZeroSign) : f v = f v' := by
  have apply (v : Value) : f v.dropZeroSign = f v := by
    rcases dropZeroSign_eq_or v with unchanged | ⟨rfl, zero⟩
    · rw [unchanged]
    · rw [zero, same]
  rw [← apply v, h, apply v']

end Value

/-- Two results that a function makes the same are one fault or two values that it makes the same. -/
theorem cases_of_map_eq {ε α γ : Type} {g : α → γ} {r r' : Except ε α} (h : r.map g = r'.map g) :
    (∃ f, r = .error f ∧ r' = .error f) ∨ ∃ a a', r = .ok a ∧ r' = .ok a' ∧ g a = g a' := by
  cases r with
  | error f =>
    cases r' with
    | error f' => exact .inl ⟨f, rfl, by simpa [Except.map] using h.symm⟩
    | ok a' => simp [Except.map] at h
  | ok a =>
    cases r' with
    | error f' => simp [Except.map] at h
    | ok a' => exact .inr ⟨a, a', rfl, rfl, by simpa [Except.map] using h⟩

/-- The same fault, or values that are the same up to the sign of a zero. -/
def Agree {ε : Type} (r r' : Except ε Value) : Prop :=
  r.map Value.dropZeroSign = r'.map Value.dropZeroSign

namespace Agree

variable {ε : Type} {r r' : Except ε Value}

theorem of_eq (h : r = r') : Agree r r' := congrArg _ h

theorem ok {v v' : Value} (h : v.dropZeroSign = v'.dropZeroSign) :
    Agree (.ok v : Except ε Value) (.ok v') := congrArg Except.ok h

theorem cases_eq (h : Agree r r') :
    (∃ f, r = .error f ∧ r' = .error f) ∨
      ∃ v v', r = .ok v ∧ r' = .ok v' ∧ v.dropZeroSign = v'.dropZeroSign := cases_of_map_eq h

/-- Results go on to agree if what is done with their values does. -/
theorem bind (h : Agree r r') {k k' : Value → Except ε Value}
    (next : ∀ v v', v.dropZeroSign = v'.dropZeroSign → Agree (k v) (k' v')) :
    Agree (r >>= k) (r' >>= k') := by
  rcases h.cases_eq with ⟨f, rfl, rfl⟩ | ⟨v, v', rfl, rfl, same⟩
  · rfl
  · exact next v v' same

theorem after {β : Type} {x : Except ε β} {k k' : β → Except ε Value}
    (next : ∀ b, Agree (k b) (k' b)) : Agree (x >>= k) (x >>= k') := by
  cases x with
  | error f => rfl
  | ok b => exact next b

theorem mapError {ε' : Type} (f : ε → ε') (h : Agree r r') :
    Agree (r.mapError f) (r'.mapError f) := by
  rcases h.cases_eq with ⟨f', rfl, rfl⟩ | ⟨v, v', rfl, rfl, same⟩
  · rfl
  · exact .ok same

end Agree

/-! ## 1. Numbers -/

theorem compare?_zero_right (m : Number) :
    m.compare? (.float (-0)) = m.compare? (.float 0) :=
  compare?_congr m rfl

theorem compare?_zero_left (n : Number) :
    Number.compare? (.float (-0)) n = Number.compare? (.float 0) n := by
  rw [← swap_compare?, compare?_zero_right, swap_compare?]

section Combine

variable (exact : Int → Int → Int) {inexact : Float → Float → Float}
  (blind : ∀ x y, dropZeroSign (inexact (dropZeroSign x) (dropZeroSign y)) =
    dropZeroSign (inexact x y))

include blind

theorem combine_zero_left (n : Number) :
    Agree ((combine exact inexact (.float (-0)) n).map Value.ofNumber)
      ((combine exact inexact (.float 0) n).map Value.ofNumber) := by
  have same (y : Float) : dropZeroSign (inexact (-0) y) = dropZeroSign (inexact 0 y) := by
    rw [← blind, ← blind 0]
    rfl
  cases n with
  | float y => exact @Agree.ok _ (.float _) (.float _) (congrArg Value.float (same y))
  | int n =>
    change Agree (((Number.int n).toFloat >>= fun y => _).map _)
      (((Number.int n).toFloat >>= fun y => _).map _)
    cases (Number.int n).toFloat with
    | error f => rfl
    | ok y => exact @Agree.ok _ (.float _) (.float _) (congrArg Value.float (same y))

theorem combine_zero_right (m : Number) :
    Agree ((combine exact inexact m (.float (-0))).map Value.ofNumber)
      ((combine exact inexact m (.float 0)).map Value.ofNumber) := by
  have same (x : Float) : dropZeroSign (inexact x (-0)) = dropZeroSign (inexact x 0) := by
    rw [← blind, ← blind x 0]
    rfl
  cases m with
  | float x => exact @Agree.ok _ (.float _) (.float _) (congrArg Value.float (same x))
  | int n =>
    change Agree (((Number.int n).toFloat >>= fun x => _).map _)
      (((Number.int n).toFloat >>= fun x => _).map _)
    cases (Number.int n).toFloat with
    | error f => rfl
    | ok x => exact @Agree.ok _ (.float _) (.float _) (congrArg Value.float (same x))

end Combine

theorem divideNumbers_float_left (x : Float) (n : Number) :
    divideNumbers (.float x) n =
      n.toFloat.bind fun y => if y == 0 then .error (.divisionByZero true) else .ok (x / y) := by
  cases n <;> rfl

theorem divideNumbers_float_right (m : Number) (y : Float) :
    divideNumbers m (.float y) =
      m.toFloat.bind fun x => if y == 0 then .error (.divisionByZero true) else .ok (x / y) := by
  cases m <;> rfl

theorem divideNumbers_zero_left (n : Number) :
    Agree ((divideNumbers (.float (-0)) n).map .float) ((divideNumbers (.float 0) n).map .float) := by
  rw [divideNumbers_float_left, divideNumbers_float_left]
  cases n.toFloat with
  | error f => rfl
  | ok y =>
    simp only [Except.bind]
    split
    · rfl
    · refine .ok (congrArg Value.float ?_)
      rw [← dropZeroSign_div, ← dropZeroSign_div 0]
      rfl

theorem divideNumbers_zero_right (m : Number) :
    divideNumbers m (.float (-0)) = divideNumbers m (.float 0) := by
  have zero : ((-0 : Float) == 0) = true ∧ ((0 : Float) == 0) = true := ⟨rfl, rfl⟩
  simp only [divideNumbers_float_right, zero, if_true]

/-- Powers that are the same up to the sign of a zero make results that agree. -/
theorem agree_raised {r r' : Except PowerFault Float}
    (h : r.map dropZeroSign = r'.map dropZeroSign) : Agree (Value.raised r) (Value.raised r') := by
  rcases cases_of_map_eq h with ⟨f, rfl, rfl⟩ | ⟨z, z', rfl, rfl, same⟩
  · rfl
  · exact .ok (congrArg Value.float same)

/-! ## 2. Operations -/

namespace Value

section One

variable {v v' : Value} (h : v.dropZeroSign = v'.dropZeroSign)

include h

theorem isZeroNumber_eq : v.isZeroNumber = v'.isZeroNumber := @eq_of_same _ isZeroNumber rfl v v' h

theorem absolute_eq : v.absolute = v'.absolute := @eq_of_same _ absolute rfl v v' h

/-- The greatest integer that is not above a value. -/
theorem floor_eq : v.toReal >>= floorInteger = v'.toReal >>= floorInteger :=
  @eq_of_same _ (fun v => v.toReal >>= floorInteger) rfl v v' h

theorem agree_negate : Agree v.negate v'.negate :=
  @eq_of_same _ (fun v => v.negate.map dropZeroSign) rfl v v' h

theorem agree_affirm : Agree v.affirm v'.affirm :=
  @eq_of_same _ (fun v => v.affirm.map dropZeroSign) rfl v v' h

end One

section Two

variable {a a' b b' : Value} (ha : a.dropZeroSign = a'.dropZeroSign)
  (hb : b.dropZeroSign = b'.dropZeroSign)

/-- An operation may be looked at one argument at a time. -/
theorem agree_of_zeros {f : Value → Value → Except ValueFault Value}
    (left : ∀ b, Agree (f (float (-0)) b) (f (float 0) b))
    (right : ∀ a, Agree (f a (float (-0))) (f a (float 0)))
    (ha : a.dropZeroSign = a'.dropZeroSign) (hb : b.dropZeroSign = b'.dropZeroSign) :
    Agree (f a b) (f a' b') := by
  have first : Agree (f a b) (f a' b) :=
    @eq_of_same _ (fun a => (f a b).map dropZeroSign) (left b) a a' ha
  have second : Agree (f a' b) (f a' b') :=
    @eq_of_same _ (fun b => (f a' b).map dropZeroSign) (right a') b b' hb
  exact first.trans second

/-- An operation that combines numbers, and of anything else takes only the kind. -/
theorem agree_of_combine {f : Value → Value → Except ValueFault Value} (exact : Int → Int → Int)
    {inexact : Float → Float → Float}
    (blind : ∀ x y, Haulage.dropZeroSign (inexact (Haulage.dropZeroSign x)
      (Haulage.dropZeroSign y)) = Haulage.dropZeroSign (inexact x y))
    (numbers : ∀ a b m n, a.number? = some m → b.number? = some n →
      f a b = (combine exact inexact m n).map ofNumber)
    (left : ∀ b, b.number? = none → f (float (-0)) b = f (float 0) b)
    (right : ∀ a, a.number? = none → f a (float (-0)) = f a (float 0))
    (ha : a.dropZeroSign = a'.dropZeroSign) (hb : b.dropZeroSign = b'.dropZeroSign) :
    Agree (f a b) (f a' b') := by
  refine agree_of_zeros (fun b => ?_) (fun a => ?_) ha hb
  · cases hn : b.number? with
    | none =>
      rw [left b hn]
      rfl
    | some n =>
      rw [numbers _ b _ n rfl hn, numbers _ b _ n rfl hn]
      exact combine_zero_left exact blind n
  · cases hm : a.number? with
    | none =>
      rw [right a hm]
      rfl
    | some m =>
      rw [numbers a _ m _ hm rfl, numbers a _ m _ hm rfl]
      exact combine_zero_right exact blind m

include ha hb

theorem agree_add : Agree (a.add b) (a'.add b') := by
  refine agree_of_combine (· + ·) dropZeroSign_add (fun a b m n hm hn => ?_) (fun b none => ?_)
    (fun a none => ?_) ha hb
  · simp only [add, hm, hn]
  · cases b <;> first | rfl | cases none
  · cases a <;> first | rfl | cases none

theorem agree_subtract : Agree (a.subtract b) (a'.subtract b') := by
  refine agree_of_combine (· - ·) dropZeroSign_sub (fun a b m n hm hn => ?_) (fun b none => ?_)
    (fun a none => ?_) ha hb
  · simp only [subtract, hm, hn]
  · cases b <;> first | rfl | cases none
  · cases a <;> first | rfl | cases none

theorem agree_multiply : Agree (a.multiply b) (a'.multiply b') := by
  refine agree_of_combine (· * ·) dropZeroSign_mul (fun a b m n hm hn => ?_) (fun b none => ?_)
    (fun a none => ?_) ha hb
  · simp only [multiply, hm, hn]
  · cases b <;> first | rfl | cases none
  · cases a <;> first | rfl | cases none

theorem agree_divide : Agree (a.divide b) (a'.divide b') := by
  refine agree_of_zeros (fun b => ?_) (fun a => ?_) ha hb
  · cases hn : b.number? with
    | none => cases b <;> first | rfl | cases hn
    | some n =>
      simp only [divide, hn]
      exact divideNumbers_zero_left n
  · cases hm : a.number? with
    | none => cases a <;> rfl
    | some m =>
      simp only [divide, hm]
      change Agree ((divideNumbers m (.float (-0))).map float) _
      rw [divideNumbers_zero_right]
      rfl

theorem agree_modulo : Agree (a.modulo b) (a'.modulo b') := by
  have steps (a b : Value) : a.modulo b = if b.isZeroNumber then .error .zeroModulus
      else a.divide b >>= fun q => (q.toReal >>= floorInteger) >>= fun n =>
        b.multiply (int n) >>= a.subtract := by
    simp only [modulo, bind_assoc]
  rw [steps, steps, isZeroNumber_eq hb]
  split
  · rfl
  · refine (agree_divide ha hb).bind fun q q' hq => ?_
    rw [floor_eq hq]
    exact .after fun n => (agree_multiply hb rfl).bind fun p p' hp => agree_subtract ha hp

theorem agree_raise : Agree (a.raise b) (a'.raise b') := by
  refine agree_of_zeros (fun b => ?_) (fun a => ?_) ha hb
  · change Agree (b.toReal >>= fun y => _) (b.toReal >>= fun y => _)
    refine .after fun y => ?_
    have same : (power (-0) y).map Haulage.dropZeroSign = (power 0 y).map Haulage.dropZeroSign := by
      rw [← power_dropZeroSign, ← power_dropZeroSign 0]
      rfl
    exact agree_raised same
  · refine .after fun x => ?_
    have same : (power x (-0)).map Haulage.dropZeroSign = (power x 0).map Haulage.dropZeroSign := by
      rw [← power_dropZeroSign, ← power_dropZeroSign x 0]
      rfl
    exact agree_raised same

theorem equals_eq : a.equals b = a'.equals b' := by
  have left (b : Value) : equals (float (-0)) b = equals (float 0) b := by
    cases b with
    | float y =>
      simp only [equals, number?, compare?_zero_left]
    | _ => rfl
  have right (a : Value) : equals a (float (-0)) = equals a (float 0) := by
    cases a with
    | float x => simp only [equals, number?, compare?_zero_right]
    | _ => rfl
  rw [@eq_of_same _ (equals · b) (left b) a a' ha, @eq_of_same _ (equals a') (right a') b b' hb]

theorem related_eq (r : Relation) : related r a b = related r a' b' := by
  have left (b : Value) : related r (float (-0)) b = related r (float 0) b := by
    cases b with
    | float y => simp only [related, number?, compare?_zero_left]
    | _ => rfl
  have right (a : Value) : related r a (float (-0)) = related r a (float 0) := by
    cases a with
    | float x => simp only [related, number?, compare?_zero_right]
    | _ => rfl
  rw [@eq_of_same _ (related r · b) (left b) a a' ha,
    @eq_of_same _ (related r a') (right a') b b' hb]

end Two

/-! ## 3. Values in a row -/

@[simp] theorem dropZeroSign_dropZeroSign (v : Value) :
    v.dropZeroSign.dropZeroSign = v.dropZeroSign := by
  cases v with
  | float x => exact congrArg float (Haulage.dropZeroSign_dropZeroSign x)
  | _ => rfl

section Rows

variable {vs vs' : List Value} (h : vs.map dropZeroSign = vs'.map dropZeroSign)

/-- A function of values in a row may be looked at on values without minus zeros. -/
theorem agree_of_map {ε : Type} {f : List Value → Except ε Value}
    (settled : ∀ vs, Agree (f (vs.map dropZeroSign)) (f vs))
    (h : vs.map dropZeroSign = vs'.map dropZeroSign) : Agree (f vs) (f vs') := by
  have first := settled vs
  rw [h] at first
  exact first.symm.trans (settled vs')

/-- Results that are put together one after the other agree if every step does. -/
theorem agree_foldlM {f : Value → Value → Except ValueFault Value}
    (step : ∀ {a a' b b' : Value}, a.dropZeroSign = a'.dropZeroSign →
      b.dropZeroSign = b'.dropZeroSign → Agree (f a b) (f a' b'))
    {a a' : Value} (ha : a.dropZeroSign = a'.dropZeroSign)
    (h : vs.map dropZeroSign = vs'.map dropZeroSign) :
    Agree (vs.foldlM f a) (vs'.foldlM f a') := by
  induction vs generalizing vs' a a' with
  | nil =>
    obtain rfl : vs' = [] := by simpa using h.symm
    exact .ok ha
  | cons v vs ih =>
    cases vs' with
    | nil => cases h
    | cons v' vs' =>
      obtain ⟨first, rest⟩ := List.cons.inj h
      rw [List.foldlM_cons, List.foldlM_cons]
      exact (step ha first).bind fun b b' hb => ih hb rest

theorem mapM_map_dropZeroSign {ε β : Type} {f : Value → Except ε β}
    (same : f (float (-0)) = f (float 0)) (vs : List Value) :
    (vs.map dropZeroSign).mapM f = vs.mapM f := by
  have blind : f ∘ dropZeroSign = f :=
    funext fun v => eq_of_same same (dropZeroSign_dropZeroSign v)
  rw [List.mapM_map, blind]

theorem all_isInteger_map (vs : List Value) :
    (vs.map dropZeroSign).all isInteger = vs.all isInteger := by
  have blind : isInteger ∘ dropZeroSign = isInteger :=
    funext fun v => eq_of_same rfl (dropZeroSign_dropZeroSign v)
  rw [List.all_map, blind]

theorem agree_middleOf (sorted : List Value) :
    Agree (middleOf (sorted.map dropZeroSign)) (middleOf sorted) := by
  unfold middleOf
  simp only [List.length_map, List.getElem?_map]
  split
  · cases sorted[sorted.length / 2]? with
    | none => rfl
    | some v => exact .ok (dropZeroSign_dropZeroSign v)
  · cases sorted[sorted.length / 2 - 1]? with
    | none => rfl
    | some a =>
      cases sorted[sorted.length / 2]? with
      | none => rfl
      | some b =>
        exact (agree_add (dropZeroSign_dropZeroSign a) (dropZeroSign_dropZeroSign b)).bind
          fun sum sum' same => agree_divide same rfl

include h

theorem agree_extremum (name : String) (beats : Relation) :
    Agree (extremum name beats vs) (extremum name beats vs') := by
  cases vs with
  | nil =>
    obtain rfl : vs' = [] := by simpa using h.symm
    rfl
  | cons v vs =>
    cases vs' with
    | nil => cases h
    | cons v' vs' =>
      obtain ⟨first, rest⟩ := List.cons.inj h
      refine agree_foldlM (fun ha hb => ?_) first rest
      rw [related_eq hb ha]
      refine .after fun beaten => ?_
      cases beaten
      · exact .ok ha
      · exact .ok hb

theorem agree_total : Agree (total vs) (total vs') := agree_foldlM agree_add rfl h

theorem mean_eq : mean vs = mean vs' := by
  have settled (vs : List Value) : mean (vs.map dropZeroSign) = mean vs := by
    simp only [mean, mapM_map_dropZeroSign (f := contribution) rfl, List.length_map,
      all_isInteger_map]
  rw [← settled vs, h, settled vs']

theorem spread_eq : spread vs = spread vs' := by
  have settled (vs : List Value) : spread (vs.map dropZeroSign) = spread vs := by
    simp only [spread, mapM_map_dropZeroSign (f := contribution) rfl, List.length_map]
  rw [← settled vs, h, settled vs']

theorem agree_median : Agree (median vs) (median vs') := by
  refine agree_of_map (fun vs => ?_) h
  have blind (a b : Value) : isLess a.dropZeroSign b.dropZeroSign = isLess a b :=
    related_eq (dropZeroSign_dropZeroSign a) (dropZeroSign_dropZeroSign b) .less
  rw [median, median, sortBy_map blind, bind_map_left]
  exact .after agree_middleOf

end Rows

end Value

end Haulage
