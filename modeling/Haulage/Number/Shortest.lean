/-
# The shortest decimal that reads back

`shortest x` is a decimal `c · 10^k` for a positive finite float `x` that the reader of decimals
sends to `x` again. Its grid `10^k` is the coarsest with such a point, so no decimal with fewer
digits reads back; of two such points on that grid the nearer is taken, and of two equally near ones
the even one.

On each grid only the two neighbours of `x` have to be tried, because the decimals that are read as
`x` form an interval around it.
-/
import Haulage.Number.Exact

namespace Haulage

/-- The decimal `coefficient · 10^exponent`. -/
structure Scientific where
  coefficient : Nat
  exponent : Int
deriving DecidableEq, Repr

namespace Scientific

/-- The float nearest to the decimal. -/
def toFloat (d : Scientific) : Float :=
  Float.ofScientific d.coefficient (d.exponent < 0) d.exponent.natAbs

/-- The decimal as an exact fraction. -/
def toFraction (d : Scientific) : Fraction :=
  if 0 ≤ d.exponent then ⟨d.coefficient * Nat.pow 10 d.exponent.toNat, 1, Nat.one_pos⟩
  else ⟨d.coefficient, Nat.pow 10 (-d.exponent).toNat, Nat.pow_pos (by decide)⟩

/-- Does the decimal read as the float? -/
def readsAs (d : Scientific) (x : Float) : Bool := d.toFloat == x

end Scientific

/-- `num / den` measured in units of `10^k`: a fraction again. -/
def inUnits (num den : Nat) (k : Int) : Nat × Nat :=
  if 0 ≤ k then (num, den * Nat.pow 10 k.toNat) else (num * Nat.pow 10 (-k).toNat, den)

/-- The point of the grid `10^k` next to `x = num / den` that reads as `x`, if there is one. -/
def gridPoint? (x : Float) (num den : Nat) (k : Int) : Option Scientific :=
  let (n, d) := inUnits num den k
  let below : Scientific := ⟨n / d, k⟩
  let above : Scientific := ⟨n / d + 1, k⟩
  match below.readsAs x, above.readsAs x with
  | true, true =>
    match compare (2 * (n % d)) d with
    | .lt => some below
    | .gt => some above
    | .eq => some (if below.coefficient % 2 == 0 then below else above)
  | true, false => some below
  | false, true => some above
  | false, false => none

/-- The first point that reads as `x` on the grids `10^k`, `10^(k-1)`, … -/
def coarsestPoint? (x : Float) (num den : Nat) : Nat → Int → Option Scientific
  | 0, _ => none
  | tries + 1, k =>
    match gridPoint? x num den k with
    | some d => some d
    | none => coarsestPoint? x num den tries (k - 1)

/-- The decimal with all digits of `m · 2^e`. -/
def allDigits (m : Nat) (e : Int) : Scientific :=
  if 0 ≤ e then ⟨m * Nat.pow 2 e.toNat, 0⟩ else ⟨m * Nat.pow 5 (-e).toNat, e⟩

/-- A power of ten above `m · 2^e` at most a hundredfold, from the number of binary digits. -/
def decimalScale (m : Nat) (e : Int) : Int := ((bitCount m + e) * 1233) / 4096 + 1

/-- The shortest decimal that reads as the size of the float; zero for anything that is not
finite. Seventeen digits always suffice, so the grids tried start with room for three more. -/
def shortest (x : Float) : Scientific :=
  match x.toModel.unpack with
  | .finite _ m e _ =>
    let f := scaledFraction m e
    (coarsestPoint? x.abs f.num.toNat f.den 24 (decimalScale m e)).getD (allDigits m e)
  | _ => ⟨0, 0⟩

/-- A point that is found reads as the float. -/
theorem readsAs_of_gridPoint? {x : Float} {num den : Nat} {k : Int} {d : Scientific}
    (h : gridPoint? x num den k = some d) : d.readsAs x = true := by
  simp only [gridPoint?] at h
  split at h
  · split at h
    · simp_all
    · simp_all
    · split at h <;> simp_all
  · simp_all
  · simp_all
  · simp at h

/-- A point that is found on any grid reads as the float. -/
theorem readsAs_of_coarsestPoint? {x : Float} {num den : Nat} {d : Scientific} :
    ∀ {tries : Nat} {k : Int}, coarsestPoint? x num den tries k = some d → d.readsAs x = true
  | 0, _, h => by simp [coarsestPoint?] at h
  | tries + 1, k, h => by
    simp only [coarsestPoint?] at h
    split at h
    · next d' hd =>
      obtain rfl : d' = d := by simpa using h
      exact readsAs_of_gridPoint? hd
    · exact readsAs_of_coarsestPoint? h

end Haulage
