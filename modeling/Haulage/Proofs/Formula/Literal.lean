/-
# Floats in a formula

The text of a finite float stands for the float in a formula (`lexes_numberText`): a negative one is
read as a minus sign in front of its size.  It is read back as it is, except that minus zero loses its
sign (`readBack`).
-/
import Haulage.Proofs.Formula.Form
import Haulage.Proofs.Number.Written
import Haulage.Formula.Evaluation

namespace Haulage

open Float.Model (UnpackedFloat)
open Lexer (Lexes)

/-! ## 1. What is read back -/

/-- What the text of a finite float is read back as. -/
def readBack (x : Float) : Float := if x < 0 then -x.abs else x.abs

theorem readBack_of_finite {x : Float} {s : UnpackedFloat.Sign} {m : ℕ} {e : ℤ} {pos : 0 < m}
    (h : x.toModel.unpack = .finite s m e pos) : readBack x = x := by
  have size := unpack_abs h
  apply eq_of_unpack_eq
  unfold readBack
  cases s with
  | negative =>
    have : (-x.abs).toModel = .pack x.abs.toModel.unpack.neg := rfl
    rw [if_pos ((lt_zero_iff h).mpr rfl), h, this, size]
    exact unpack_pack (canonical_of_unpack h)
  | positive =>
    have above : ¬x < 0 := fun less => nomatch (lt_zero_iff h).mp less
    rw [if_neg above, size, h]

/-- **What is read back compares as equal.** -/
theorem readBack_beq {x : Float} (finite : x.isFinite = true) : (readBack x == x) = true := by
  rcases unpack_of_isFinite finite with ⟨s, parts⟩ | ⟨s, m, e, pos, parts⟩
  · have zero : x = Float.ofModel (.pack (.zero s)) := by
      apply eq_of_unpack_eq
      rw [parts]
      cases s <;> rfl
    subst zero
    cases s <;> rfl
  · rw [readBack_of_finite parts, beq_iff_compare, compare_unpack finite finite,
      compare_eq_iff_eq.mpr rfl]

/-! ## 2. Forms of floats -/

/-- The form that the text of a finite float is. -/
def Form.ofFloat (x : Float) : Form :=
  if x < 0 then .signed .minus (.number x.abs) else .number x.abs

namespace Form

variable (x : Float)

theorem wellFormed_ofFloat : (ofFloat x).WellFormed := by
  unfold ofFloat
  split
  · exact ⟨trivial, show 4 ≤ 6 by decide⟩
  · trivial

theorem le_rank_ofFloat : 4 ≤ (ofFloat x).rank := by
  unfold ofFloat
  split <;> simp [rank]

theorem eval_ofFloat (bindings : Bindings) :
    (ofFloat x).expr.eval bindings = .ok (.float (readBack x)) := by
  unfold ofFloat readBack
  split <;> rfl

end Form

theorem lexes_numberText {x : Float} (finite : x.isFinite = true) :
    Lexes (numberText x) (Form.ofFloat x).lexemes := by
  obtain ⟨n, text, value⟩ := exists_numeral finite
  have lexes := n.lexes_text
  have apart := (Form.ofFloat x).phrase.apart
  rw [value] at lexes
  rw [text]
  unfold Form.ofFloat at apart ⊢
  split
  · rename_i negative
    rw [if_pos negative] at apart
    exact (Lexer.lexes_symbol rfl).append lexes apart
  · exact lexes

/-- The text of a finite float is made of digits, points, marks and signs. -/
theorem mem_numberText {x : Float} (finite : x.isFinite = true) {c : Char} (h : c ∈ numberText x) :
    c.isDigit = true ∨ c ∈ ".e+-".toList := by
  obtain ⟨n, text, -⟩ := exists_numeral finite
  rw [text, List.mem_append] at h
  rcases h with sign | mem
  · split at sign
    · obtain rfl := List.mem_singleton.mp sign
      exact .inr (by decide)
    · cases sign
  · exact n.mem_text mem

end Haulage
