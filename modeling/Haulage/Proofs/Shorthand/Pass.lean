/-
# One pass of spelling out

A pass spells out the shorthands one kind after the other.  A kind that the text does not call leaves
it alone (`spellOut_of_quiet`), so a pass over a text that calls a single kind does what that kind
does (`expandOnce_of_only`).
-/
import Haulage.Proofs.Shorthand.Site
import Haulage.Shorthand.Expansion
import Haulage.Validation.Limits

namespace Haulage

/-- Is the name, in letters of either case, that of the shorthand? -/
def Shorthand.Names (s : Shorthand) (n : Text) : Prop := Named s.name.toList n

instance (s : Shorthand) (n : Text) : Decidable (s.Names n) :=
  inferInstanceAs (Decidable (Named _ _))

/-- Surroundings in which nothing is set: the standard limits, on some day. -/
def Surroundings.bare : Surroundings where
  settings := .standard
  context := .empty
  clock := Sample.clock

/-- A shorthand that the text does not call leaves it alone. -/
theorem spellOut_of_quiet (w : Surroundings) {s : Shorthand} {t : Text}
    (quiet : Quiet (headNamed s.name.toList) none t []) : s.spellOut w t = .ok ⟨t, 0⟩ := by
  have same {find : Finder Text} (keyed : Keyed s.name.toList find) :
      Shorthand.spellAll find t = ⟨t, 0⟩ := by
    rw [Shorthand.spellAll]
    simp only [Finder.pieces_of_quiet (quiet.mono keyed), flatMap_text_map_kept,
      filterMap_content?_map_kept, List.length_nil]
  have nothing : (emptyCalls s.name.toList).occurs t = false := by
    rw [Finder.occurs, Finder.pieces_of_quiet (quiet.mono (keyed_emptyCalls _))]
    simp [Piece.content?]
  have blank (fact : Except ValueFault Int) : Shorthand.fillIn s.name fact t = .ok ⟨t, 0⟩ := by
    rw [Shorthand.fillIn]
    simp only [nothing, Bool.false_eq_true, if_false]
  cases s <;> first | exact blank _ | exact congrArg Except.ok (same (keyed_spellableCalls _ _))

/-- A pass over a text that calls one kind of shorthand. -/
theorem expandOnce_of_only {w : Surroundings} {k : Shorthand} {s t : Text} {count : Nat}
    (before : ∀ k' ≠ k, k'.spellOut w s = .ok ⟨s, 0⟩) (here : k.spellOut w s = .ok ⟨t, count⟩)
    (after : ∀ k' ≠ k, k'.spellOut w t = .ok ⟨t, 0⟩) : expandOnce w s = .ok ⟨t, count⟩ := by
  cases k <;>
    simp [expandOnce, Shorthand.all, bind, Except.bind, pure, Except.pure, here, before, after]

/-- A text that is no empty one is spelled out in passes. -/
theorem expand_text {w : Surroundings} {asked : Option Int} {f : Text} (nonempty : f ≠ []) :
    expand w asked (.text f) = (expandWithin w (passLimit w asked) f).map .text := by
  have truthy : (Value.text f).isTruthy = true := by simpa [Value.isTruthy] using nonempty
  simp only [expand, truthy, Bool.not_true, Bool.false_eq_true, if_false]

theorem expand_text_eq_ok_iff {w : Surroundings} {asked : Option Int} {f out : Text}
    (nonempty : f ≠ []) : expand w asked (.text f) = .ok (.text out) ↔
      expandWithin w (passLimit w asked) f = .ok out := by
  rw [expand_text nonempty]
  cases expandWithin w (passLimit w asked) f <;> simp [Except.map]

/-! ## 2. A text that is a single call -/

/-- A form without calls of shorthands is quiet. -/
theorem quiet_of_free {f : Form} {s : Text} (h : Lexer.Lexes s f.lexemes) (plain : '"' ∉ s)
    (free : ∀ call ∈ f.expr.calls, ∀ k : Shorthand, ¬k.Names call.1) (k : Shorthand)
    {rest : Text} (follows : Follows rest) (before : Option Char) :
    Quiet (headNamed k.name.toList) before s rest := by
  refine quiet_of_lexes k.shorthandName h plain (f.isChain_noHead fun call mem => ?_) follows before
  refine free (callExprs call) ?_ k
  rw [f.calls_expr]
  exact List.mem_map_of_mem mem

/-- A pass over a text without calls of shorthands finds nothing. -/
theorem expandOnce_of_free (w : Surroundings) {s : Text}
    (quiet : ∀ k : Shorthand, Quiet (headNamed k.name.toList) none s []) :
    expandOnce w s = .ok ⟨s, 0⟩ :=
  expandOnce_of_only (k := .conditional) (fun k _ => spellOut_of_quiet w (quiet k))
    (spellOut_of_quiet w (quiet _)) fun k _ => spellOut_of_quiet w (quiet k)

theorem eq_of_names_name {k k' : Shorthand} (names : k'.Names k.name.toList) : k' = k := by
  revert names
  cases k <;> cases k' <;> decide

/-- A call of the shorthand with the body. -/
def Shorthand.callText (k : Shorthand) (body : Text) : Text :=
  k.name.toList ++ '(' :: (body ++ [')'])

/-- The name of a shorthand is written as a name. -/
theorem Shorthand.spells_name (k : Shorthand) :
    Lexer.Spells k.name.toList (.name k.name.toList) [] := by
  cases k <;> exact .name (by decide) (by decide) (by decide) (by decide)

/-- The call by itself. -/
def Shorthand.call (k : Shorthand) (body : Text) : CallText k.name.toList where
  front := []
  middle := []
  body := body
  back := []
  blankFront := nofun
  blankMiddle := nofun
  blankBack := nofun
  spells := k.spells_name

theorem Shorthand.text_call (k : Shorthand) (body : Text) : (k.call body).text = k.callText body := by
  simp [CallText.text, call, callText]

/-- A call of one shorthand calls another only in its body. -/
theorem quiet_callText {k k' : Shorthand} (other : k' ≠ k) {body : Text}
    (quiet : Quiet (headNamed k'.name.toList) (some '(') body [')']) :
    Quiet (headNamed k'.name.toList) none (k.callText body) [] := by
  have paren {before : Option Char} {c : Char} {rest : Text} (symbol : c ∈ Lexer.symbolChars) :
      Quiet (headNamed k'.name.toList) before [c] rest :=
    quiet_of_no_letters k'.shorthandName fun d hd => by
      obtain rfl := List.mem_singleton.mp hd
      exact not_mem_latinLetters_of_mem_symbolChars d symbol
  obtain ⟨c, cs, name, word⟩ := word_of_spells k.spells_name
  refine quiet_append.mpr ⟨?_, ?_⟩
  · rw [name] at word ⊢
    refine quiet_of_word k'.shorthandName word rfl fun named => ?_
    rw [← name] at named
    exact absurd (eq_of_names_name named) other
  · refine quiet_append (x := ['(']).mpr ⟨paren (by decide), ?_⟩
    exact quiet_append.mpr ⟨quiet, paren (by decide)⟩

section Call

variable {w : Surroundings} {asked : Option Int} {k : Shorthand} {spell : List Text → Option Text}
  (calls : ∀ t, k.spellOut w t =
    .ok (Shorthand.spellAll (spellableCalls k.name.toList spell) t))
  {p : Char → Prop} {body out : Text} (grouped : Grouped p body)
  (others : ∀ k' ≠ k, Quiet (headNamed k'.name.toList) (some '(') body [')'])
  (spells : spell (semicolonArguments body) = some out)
  (quiet : ∀ k' : Shorthand, Quiet (headNamed k'.name.toList) none out [])

include calls grouped others spells quiet

/-- A pass spells out a single call, where what it is spelled as has no call of a shorthand. -/
theorem expandOnce_callText : expandOnce w (k.callText body) = .ok ⟨out, 1⟩ := by
  have named : k.Names k.name.toList := by cases k <;> decide
  obtain ⟨length, cuts⟩ := Cuts.spelled k.shorthandName (k.call body) named grouped spells
  rw [k.text_call] at cuts
  have here : k.spellOut w (k.callText body) = .ok ⟨out, 1⟩ := by
    rw [calls, Shorthand.spellAll, cuts.pieces_eq]
    simp [Shorthand.call, Piece.text, Piece.content?]
  exact expandOnce_of_only (fun k' other => spellOut_of_quiet w (quiet_callText other
    (others k' other))) here fun k' _ => spellOut_of_quiet w (quiet k')

/-- **A single call is spelled out.** What it is spelled as has no call of a shorthand, so a second
pass finds nothing. -/
theorem expand_callText (passes : 0 < passLimit w asked) :
    expand w asked (.text (k.callText body)) =
      if w.settings.maxExpandedLength < out.length then
        .error (.formula (.expansionTooLong out.length w.settings.maxExpandedLength))
      else .ok (.text out) := by
  have first := expandOnce_callText calls grouped others spells quiet
  have second := expandOnce_of_free w quiet
  obtain ⟨more, limit⟩ := Nat.exists_eq_add_of_lt passes
  rw [expand_text (by simp [Shorthand.callText]), limit, Nat.zero_add, expandWithin, first]
  dsimp only
  split
  · rfl
  · rename_i short
    cases more <;> simp [expandWithin, second, short, Except.map]

end Call

end Haulage
