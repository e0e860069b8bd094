/-
# Spelling out keeps the parentheses

What is put in place of a call is put together from its arguments, and some of them may be dropped,
joined or written more than once.  Yet parentheses stay in balance: the body of a call is grouped, and
so is what comes in its place, and counting passes over either as if nothing were there.

So a formula that was spelled out has as many parentheses to spare as before, on either side, also
where they do not match in the first place (`expand_surplus`).  Counting goes through the formula from
left to right; `ClosesWithin d` says that it never falls more than `d` below zero on its way, and that
is kept for every `d`.
-/
import Haulage.Proofs.Shorthand.Settling

namespace Haulage

/-! ## 1. Counting parentheses -/

/-- The number of parentheses that open in the text, less that of those which close. -/
def surplus (s : Text) : ℤ := s.count '(' - s.count ')'

/-- If so many parentheses are open in front of the text, does no beginning of it close more? -/
def ClosesWithin (depth : ℤ) (s : Text) : Prop := ∀ x, x <+: s → 0 ≤ depth + surplus x

/-- No beginning of the text closes more parentheses than it opens, and in the end all are closed. -/
structure WellNested (s : Text) : Prop where
  within : ClosesWithin 0 s
  closed : surplus s = 0

@[simp] theorem surplus_nil : surplus [] = 0 := rfl

@[simp] theorem surplus_append (x y : Text) : surplus (x ++ y) = surplus x + surplus y := by
  simp only [surplus, List.count_append]
  omega

theorem surplus_cons (c : Char) (s : Text) : surplus (c :: s) = surplus [c] + surplus s :=
  surplus_append [c] s

theorem surplus_of_plain {c : Char} (notOpen : c ≠ '(') (notClose : c ≠ ')') : surplus [c] = 0 := by
  simp [surplus, notOpen, notClose]

section Parts

variable {depth : ℤ} {x y : Text}

theorem ClosesWithin.nonneg (h : ClosesWithin depth x) : 0 ≤ depth := by
  simpa using h [] (List.nil_prefix)

/-- A text is counted part by part. -/
theorem closesWithin_append :
    ClosesWithin depth (x ++ y) ↔ ClosesWithin depth x ∧ ClosesWithin (depth + surplus x) y := by
  constructor
  · refine fun h => ⟨fun z part => h z (part.trans (List.prefix_append x y)), fun z part => ?_⟩
    have longer := h (x ++ z) ((List.prefix_append_right_inj x).mpr part)
    rwa [surplus_append, ← add_assoc] at longer
  · rintro ⟨first, second⟩ z part
    rcases List.prefix_or_prefix_of_prefix part (List.prefix_append x y) with short | ⟨t, rfl⟩
    · exact first z short
    · rw [surplus_append, ← add_assoc]
      exact second t ((List.prefix_append_right_inj x).mp part)

theorem closesWithin_cons {c : Char} :
    ClosesWithin depth (c :: y) ↔ ClosesWithin depth [c] ∧ ClosesWithin (depth + surplus [c]) y :=
  closesWithin_append (x := [c])

theorem closesWithin_singleton {c : Char} :
    ClosesWithin depth [c] ↔ 0 ≤ depth ∧ 0 ≤ depth + surplus [c] := by
  refine ⟨fun h => ⟨h.nonneg, h [c] List.prefix_rfl⟩, fun ⟨before, behind⟩ z part => ?_⟩
  rcases List.prefix_cons_iff.mp part with rfl | ⟨t, rfl, rest⟩
  · simpa using before
  · rwa [List.prefix_nil.mp rest]

/-- **A grouped text opens and closes as much**, and never closes what is open in front of it. -/
theorem Grouped.counted {p : Char → Prop} (h : Grouped p x) :
    surplus x = 0 ∧ ∀ depth : ℤ, 0 ≤ depth → ClosesWithin depth x := by
  induction h with
  | nil =>
    refine ⟨rfl, fun depth nonneg z part => ?_⟩
    rw [List.prefix_nil.mp part]
    simpa using nonneg
  | @plain _ c cs _ notOpen notClose _ ih =>
    obtain ⟨closed, within⟩ := ih
    have none := surplus_of_plain notOpen notClose
    refine ⟨by rw [surplus_cons, none, closed, add_zero], fun depth nonneg => ?_⟩
    refine closesWithin_cons.mpr ⟨closesWithin_singleton.mpr ⟨nonneg, ?_⟩, ?_⟩
    · rwa [none, add_zero]
    · rw [none, add_zero]
      exact within depth nonneg
  | @group _ x y _ _ ihx ihy =>
    obtain ⟨closedX, withinX⟩ := ihx
    obtain ⟨closedY, withinY⟩ := ihy
    have opens : surplus ['('] = 1 := rfl
    have closes : surplus [')'] = -1 := rfl
    have whole : '(' :: (x ++ ')' :: y) = ['('] ++ (x ++ ([')'] ++ y)) := rfl
    rw [whole]
    refine ⟨by simp only [surplus_append, opens, closes, closedX, closedY]; rfl, fun depth nonneg => ?_⟩
    simp only [closesWithin_append, closesWithin_singleton, opens, closes, closedX, add_zero,
      add_neg_cancel_right]
    exact ⟨⟨nonneg, by omega⟩, withinX _ (by omega), ⟨by omega, nonneg⟩, withinY depth nonneg⟩

/-- Counting passes over a grouped text. -/
theorem Grouped.closesWithin_append {p : Char → Prop} (h : Grouped p x) :
    ClosesWithin depth (x ++ y) ↔ ClosesWithin depth y := by
  obtain ⟨closed, within⟩ := h.counted
  rw [Haulage.closesWithin_append, closed, add_zero]
  exact and_iff_right_of_imp fun rest => within depth rest.nonneg

end Parts

/-! ## 2. Texts that are counted alike -/

/-- As many parentheses are to spare in the two texts, and they close within the same depths. -/
structure CountedAlike (s t : Text) : Prop where
  surplus_eq : surplus t = surplus s
  within_iff : ∀ depth, ClosesWithin depth t ↔ ClosesWithin depth s

namespace CountedAlike

variable {s t u : Text}

theorem refl (s : Text) : CountedAlike s s := ⟨rfl, fun _ => Iff.rfl⟩

theorem trans (h : CountedAlike s t) (h' : CountedAlike t u) : CountedAlike s u :=
  ⟨h'.surplus_eq.trans h.surplus_eq, fun depth => (h'.within_iff depth).trans (h.within_iff depth)⟩

theorem wellNested_iff (h : CountedAlike s t) : WellNested t ↔ WellNested s := by
  have parts (s : Text) : WellNested s ↔ ClosesWithin 0 s ∧ surplus s = 0 :=
    ⟨fun h => ⟨h.within, h.closed⟩, fun h => ⟨h.1, h.2⟩⟩
  rw [parts, parts, h.within_iff, h.surplus_eq]

theorem cons (c : Char) (h : CountedAlike s t) : CountedAlike (c :: s) (c :: t) := by
  refine ⟨by rw [surplus_cons, h.surplus_eq, ← surplus_cons], fun depth => ?_⟩
  rw [closesWithin_cons, h.within_iff, ← closesWithin_cons]

/-- One grouped text may stand for another. -/
theorem grouped {p q : Char → Prop} {x y : Text} (hx : Grouped p x) (hy : Grouped q y)
    (h : CountedAlike s t) : CountedAlike (x ++ s) (y ++ t) := by
  refine ⟨?_, fun depth => ?_⟩
  · rw [surplus_append, surplus_append, hx.counted.1, hy.counted.1, h.surplus_eq]
  · rw [hx.closesWithin_append, hy.closesWithin_append]
    exact h.within_iff depth

end CountedAlike

/-! ## 3. Calls, passes, formulas -/

/-- **Replacing calls keeps the parentheses**: a call is grouped, and so is what takes its place. -/
theorem ReplacesCalls.countedAlike {R : Shorthand → Text → Text → Prop} {before : Option Char}
    {s s' : Text} {n : ℕ} (h : ReplacesCalls R before s s' n) : CountedAlike s s' := by
  induction h with
  | nil => exact .refl _
  | keep c _ ih => exact ih.cons c
  | @swap _ k _ front body _ s _ _ _ isFront grouped content _ _ ih =>
    have call := isFront.grouped k.shorthandName grouped
    have whole : front ++ '(' :: (body ++ ')' :: s) = front ++ '(' :: (body ++ [')']) ++ s := by simp
    rw [whole]
    exact ih.grouped call content.grouped

/-- **A pass keeps the parentheses.** -/
theorem countedAlike_expandOnce (w : Surroundings) (t : Text) :
    Ensures (fun _ => True) (fun next => CountedAlike t next.text) (expandOnce w t) := by
  refine Ensures.foldlM (fun k _ => k.mem_all) (fun done k alike _ => ?_) (.refl t)
  refine (spellsCalls_spellOut w k done.text).bind fun next calls => ?_
  exact alike.trans calls.countedAlike

theorem countedAlike_expandWithin {w : Surroundings} {passes : ℕ} {f out : Text}
    (run : expandWithin w passes f = .ok out) : CountedAlike f out := by
  induction passes generalizing f with
  | zero =>
    obtain rfl := Except.ok.inj run
    exact .refl f
  | succ passes ih =>
    have pass := countedAlike_expandOnce w f
    rw [expandWithin] at run
    split at run
    · cases run
    · rename_i next once
      rw [once] at pass
      split at run
      · cases run
      · split at run
        · obtain rfl := Except.ok.inj run
          exact pass
        · exact pass.trans (ih run)

/-- **Spelling out keeps the parentheses.**  In what a formula is spelled out as, however deep its calls
are nested and whether or not its parentheses match, as many parentheses open beyond those that close
as in the formula; and they are well nested in the one if and only if they are in the other. -/
theorem expand_surplus {w : Surroundings} {asked : Option Int} {f : Text} {out : Value}
    (run : expand w asked (.text f) = .ok out) :
    ∃ t, out = .text t ∧ surplus t = surplus f ∧ (WellNested t ↔ WellNested f) := by
  by_cases empty : f = []
  · subst empty
    obtain rfl := Except.ok.inj run
    exact ⟨[], rfl, rfl, Iff.rfl⟩
  · rw [expand_text empty] at run
    cases within : expandWithin w (passLimit w asked) f with
    | error fault => simp [within, Except.map] at run
    | ok t =>
      rw [within] at run
      obtain rfl := Except.ok.inj run
      have alike := countedAlike_expandWithin within
      exact ⟨t, rfl, alike.surplus_eq, alike.wellNested_iff⟩

/-- A parenthesis that nothing opens is still there when the conditional behind it was written down
twice. -/
theorem expand_surplus_of_copied :
    let f := ")TARIFAESCALONADA(SI(a;(b);c);5:1;9:2)".toList
    ∃ t, expand .bare none (.text f) = .ok (.text t) ∧ surplus t = -1 ∧ ¬ WellNested t := by
  intro f
  let out := ")(((a ? (b) : c)) <= 5 ? 1 : (((a ? (b) : c)) <= 9 ? 2 : 2))".toList
  have run : expandWithin .bare (passLimit .bare none) f = .ok out := by decide +kernel
  have run : expand .bare none (.text f) = .ok (.text out) :=
    (expand_text_eq_ok_iff (by decide)).mpr run
  obtain ⟨t, same, count, nested⟩ := expand_surplus run
  obtain rfl : out = t := Value.text.inj same
  have short : surplus f = -1 := by decide
  refine ⟨out, run, count.trans short, fun well => ?_⟩
  have closed := (nested.mp well).closed
  rw [short] at closed
  cases closed

end Haulage
