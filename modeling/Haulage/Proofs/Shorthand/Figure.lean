/-
# Figures that stand in the text

A rounding says its places and a tiered rate its tiers behind a semicolon, in figures, and what the
call is spelled out as depends on them.  Two texts side by side are `Literal` when the figures of
every such call that is closed are the same in either text and hold no parenthesis, so that no call
stands in them.

Spelling out the calls of one shorthand `Rewrites` a twin: the characters between calls are kept, and
a call makes room for what it is spelled as.  **The twin stays literal** (`Rewrites.literal`).  A head
behind the pass either was one before it, and then its figures were not touched, or it has come to
stand in front of a content in parentheses, which lists no figures.
-/
import Haulage.Proofs.Shorthand.Span
import Haulage.Proofs.Shorthand.Twin

namespace Haulage

/-- The shorthands whose calls list figures behind the first argument. -/
def Shorthand.withFigures : List Shorthand := [rounding, tieredRate]

/-- The calls with figures in a text: none of the figures holds a parenthesis. -/
def FiguresLiteral (s : Text) : Prop :=
  ∀ k ∈ Shorthand.withFigures, ∀ call ∈ callSites (headNamed k.name.toList) s,
    ∀ figure ∈ (semicolonArguments call.body).tail, '(' ∉ figure

instance (s : Text) : Decidable (FiguresLiteral s) :=
  inferInstanceAs (Decidable (∀ _ ∈ _, ∀ _ ∈ _, ∀ _ ∈ _, _))

namespace Twin

/-! ## 1. Figures -/

/-- Up to the parenthesis that closes, none opens and the two texts are one. -/
def Settled : Twin → Prop
  | [] => True
  | c :: z => c.1 = ')' ∨ c.1 ≠ '(' ∧ c.2 = c.1 ∧ Settled z

/-- What follows the first semicolon of a body is settled, when so many parentheses are open. -/
def FiguresSettled : Nat → Twin → Prop
  | _, [] => True
  | depth, c :: z =>
    if c.1 = '(' then FiguresSettled (depth + 1) z
    else if c.1 = ')' then depth = 0 ∨ FiguresSettled (depth - 1) z
    else if c.1 = ';' ∧ depth = 0 then Settled z
    else FiguresSettled depth z

/-- If the call whose parenthesis has just opened is closed, its figures are settled. -/
def Allows (z : Twin) : Prop := (bodyOf? 0 (left z)).isSome = true → FiguresSettled 0 z

/-- If a call with figures begins at the place, they are settled. -/
def HeadsAllow (before : Option Char) (c : Cell) (z : Twin) : Prop :=
  ∀ k ∈ Shorthand.withFigures, ∀ h, headNamed k.name.toList before c.1 (left z) = some h →
    Allows ((c :: z).drop h.length)

/-- **The figures are literal** in every call that begins in a twin, which stands between a character
and another twin. -/
def Literal : Option Char → Twin → Twin → Prop
  | _, [], _ => True
  | before, c :: x, rest => HeadsAllow before c (x ++ rest) ∧ Literal (some c.1) x rest

variable {before before' : Option Char} {x y z z' rest : Twin}

theorem literal_append : Literal before (x ++ y) rest ↔
    Literal before x (y ++ rest) ∧ Literal (lastOr before (left x)) y rest := by
  induction x generalizing before with
  | nil => simp [Literal]
  | cons c x ih => simp [Literal, ih, lastOr_cons, and_assoc]

/-- Where no call with figures begins, all of them are literal. -/
theorem literal_of_quiet
    (quiet : ∀ k : Shorthand, Quiet (headNamed k.name.toList) before (left x) (left rest)) :
    Literal before x rest := by
  induction x generalizing before with
  | nil => trivial
  | cons c x ih =>
    refine ⟨fun k _ h found => ?_, ih fun k => (quiet k).2⟩
    rw [left_append] at found
    cases (quiet k).1.symm.trans found

/-- Counting passes over a grouped text. -/
theorem figuresSettled_append {p : Char → Prop} (h : Grouped p (left x)) {depth : Nat}
    (outside : depth = 0 → ∀ c, p c → c ≠ ';') :
    FiguresSettled depth (x ++ z) ↔ FiguresSettled depth z := by
  generalize whole : left x = s at h
  induction h generalizing x depth z with
  | nil =>
    obtain rfl := List.map_eq_nil_iff.mp whole
    rfl
  | plain here notOpen notClose _ ih =>
    obtain ⟨c, x, rfl, rfl, rest⟩ := exists_of_left_eq_cons whole
    have other : ¬(c.1 = ';' ∧ depth = 0) := fun both => outside both.2 _ here both.1
    rw [List.cons_append, FiguresSettled, if_neg notOpen, if_neg notClose, if_neg other,
      ih outside rest]
  | group _ _ ihx ihy =>
    obtain ⟨o, x, rfl, opens, inner⟩ := exists_of_left_eq_cons whole
    obtain ⟨zx, x', rfl, inside, rest⟩ := exists_of_left_eq_append inner
    obtain ⟨c, zy, rfl, closes, more⟩ := exists_of_left_eq_cons rest
    have other : c.1 ≠ '(' := by rw [closes]; decide
    have deeper : depth + 1 = 0 → ∀ d : Char, True → d ≠ ';' := fun zero => by omega
    rw [List.cons_append, FiguresSettled, if_pos opens, List.append_assoc, List.cons_append,
      ihx deeper inside, FiguresSettled, if_neg other, if_pos closes]
    simpa using ihy outside more

theorem isSome_bodyOf?_append {p : Char → Prop} (h : Grouped p (left x)) (depth : Nat) (z : Twin) :
    (bodyOf? depth (left (x ++ z))).isSome = (bodyOf? depth (left z)).isSome := by
  rw [left_append, h.bodyOf?_append, Option.isSome_map]

/-- The figures of a call with a grouped body do not depend on what follows it. -/
theorem Settled.exchange {c : Cell} (closes : c.1 = ')') (h : Settled (x ++ c :: z)) :
    Settled (x ++ c :: z') := by
  induction x with
  | nil => exact .inl closes
  | cons d x ih => exact h.imp_right fun ⟨notOpen, same, more⟩ => ⟨notOpen, same, ih more⟩

theorem FiguresSettled.exchange {c : Cell} (closes : c.1 = ')') {depth : Nat}
    (body : bodyOf? depth (left (x ++ c :: z)) = some (left x))
    (h : FiguresSettled depth (x ++ c :: z)) : FiguresSettled depth (x ++ c :: z') := by
  have notOpen : c.1 ≠ '(' := by rw [closes]; decide
  induction x generalizing depth with
  | nil =>
    cases depth with
    | zero => simp [FiguresSettled, closes]
    | succ depth =>
      exfalso
      simp [bodyOf?, closes] at body
  | cons d x ih =>
    rw [List.cons_append, left_cons] at body
    unfold bodyOf? at body
    rw [List.cons_append, FiguresSettled] at h ⊢
    by_cases opens : d.1 = '('
    · rw [if_pos opens] at h ⊢
      refine ih ?_ h
      simpa [opens] using body
    · rw [if_neg opens] at h ⊢
      by_cases closes' : d.1 = ')'
      · rw [if_pos closes'] at h ⊢
        cases depth with
        | zero => exact .inl rfl
        | succ depth =>
          refine .inr (ih ?_ (h.resolve_left (Nat.succ_ne_zero depth)))
          simpa [closes'] using body
      · rw [if_neg closes'] at h ⊢
        have body' : bodyOf? depth (left (x ++ c :: z)) = some (left x) := by
          simpa [opens, closes'] using body
        split
        · rename_i semicolon
          rw [if_pos semicolon] at h
          exact h.exchange closes
        · rename_i other
          rw [if_neg other] at h
          exact ih body' h

theorem Allows.exchange {c : Cell} (closes : c.1 = ')') (grouped : Grouped (fun _ => True) (left x))
    (h : Allows (x ++ c :: z)) : Allows (x ++ c :: z') := by
  intro _
  have body : bodyOf? 0 (left (x ++ c :: z)) = some (left x) := by
    rw [left_append, left_cons, closes]
    exact grouped.bodyOf?_eq_some _
  exact (h (by rw [body]; rfl)).exchange closes body

/-! ## 2. Rewriting -/

/-- A call from its name to the parenthesis that closes it. -/
def IsCall (x : Twin) : Prop := ∃ front p body q, x = front ++ p :: (body ++ [q]) ∧
  (∀ c ∈ left front, c ≠ ';' ∧ c ≠ '(' ∧ c ≠ ')') ∧ p.1 = '(' ∧ q.1 = ')' ∧
  Grouped (fun _ => True) (left body)

/-- What may stand in place of a call: a number, or parentheses in which no semicolon stands alone;
with literal figures wherever it stands. -/
structure Content (y : Twin) : Prop where
  alike : Alike y
  shape : y ≠ [] ∧ Digits (left y) ∨ ∃ p m q, y = p :: (m ++ [q]) ∧ p.1 = '(' ∧ q.1 = ')' ∧
    Grouped (· ≠ ';') (left m)
  literal : ∀ before rest, Literal before y rest

/-- The second twin has contents in place of some calls of the first. -/
inductive Rewrites : Twin → Twin → Prop
  | nil : Rewrites [] []
  | keep (c : Cell) {z z' : Twin} (more : Rewrites z z') : Rewrites (c :: z) (c :: z')
  | swap {x y z z' : Twin} (call : IsCall x) (content : Content y) (more : Rewrites z z') :
    Rewrites (x ++ z) (y ++ z')

theorem IsCall.grouped (h : IsCall x) : Grouped (· ≠ ';') (left x) := by
  obtain ⟨front, p, body, q, rfl, plain, opens, closes, grouped⟩ := h
  simp only [left_append, left_cons, left_nil, opens, closes]
  exact (Grouped.of_forall plain).append (.group grouped .nil)

theorem IsCall.lastOr (h : IsCall x) (before : Option Char) :
    lastOr before (left x) = some ')' := by
  obtain ⟨front, p, body, q, rfl, -, -, closes, -⟩ := h
  rw [left_append, lastOr_append, left_cons, left_append, ← List.cons_append, lastOr_append]
  simp [Haulage.lastOr, closes]

theorem IsCall.not_settled (h : IsCall x) : ¬Settled (x ++ z) := by
  obtain ⟨front, p, body, q, rfl, plain, opens, -, -⟩ := h
  induction front with
  | nil => simp [Settled, opens]
  | cons c front ih =>
    obtain ⟨first, others⟩ := List.forall_mem_cons.mp plain
    simp only [List.cons_append, Settled, not_or]
    exact ⟨first.2.2, fun both => ih others both.2.2⟩

theorem Content.grouped (h : Content y) : Grouped (· ≠ ';') (left y) := by
  rcases h.shape with ⟨-, digits⟩ | ⟨p, m, q, rfl, opens, closes, grouped⟩
  · refine .of_forall fun c mem => ?_
    have digit := digits c mem
    refine ⟨?_, ?_, ?_⟩ <;>
    · rintro rfl
      exact absurd digit (by decide)
  · simp only [left_append, left_cons, left_nil, opens, closes]
    exact .group (grouped.mono fun _ _ => trivial) .nil

theorem Rewrites.alike (h : Rewrites z z') (alike : Alike z) : Alike z' := by
  induction h with
  | nil => exact alike
  | keep _ _ ih =>
    rw [alike_cons] at alike ⊢
    exact ⟨alike.1, ih alike.2⟩
  | swap _ content _ ih =>
    rw [alike_append] at alike ⊢
    exact ⟨content.alike, ih alike.2⟩

theorem Rewrites.settled (h : Rewrites z z') (settled : Settled z) : Settled z' := by
  induction h with
  | nil => trivial
  | keep _ _ ih => exact settled.imp_right fun ⟨notOpen, same, more⟩ => ⟨notOpen, same, ih more⟩
  | swap call => exact absurd settled call.not_settled

/-- Rewriting keeps settled figures, and opens and closes nothing. -/
theorem Rewrites.figuresSettled (h : Rewrites z z') {depth : Nat}
    (settled : FiguresSettled depth z) : FiguresSettled depth z' := by
  induction h generalizing depth with
  | nil => exact settled
  | keep c more ih =>
    rw [FiguresSettled] at settled ⊢
    split
    · rename_i opens
      rw [if_pos opens] at settled
      exact ih settled
    · rename_i notOpen
      rw [if_neg notOpen] at settled
      split
      · rename_i closes
        rw [if_pos closes] at settled
        exact settled.imp_right ih
      · rename_i notClose
        rw [if_neg notClose] at settled
        split
        · rename_i semicolon
          rw [if_pos semicolon] at settled
          exact more.settled settled
        · rename_i other
          rw [if_neg other] at settled
          exact ih settled
  | swap call content _ ih =>
    rw [figuresSettled_append content.grouped fun _ _ => id]
    rw [figuresSettled_append call.grouped fun _ _ => id] at settled
    exact ih settled

theorem Rewrites.isSome_bodyOf? (h : Rewrites z z') (depth : Nat) :
    (bodyOf? depth (left z')).isSome = (bodyOf? depth (left z)).isSome := by
  induction h generalizing depth with
  | nil => rfl
  | keep c _ ih =>
    rw [left_cons, left_cons]
    unfold bodyOf?
    split
    · rw [Option.isSome_map, Option.isSome_map, ih]
    · split
      · cases depth with
        | zero => rfl
        | succ depth => simp only [Option.isSome_map, ih]
      · rw [Option.isSome_map, Option.isSome_map, ih]
  | swap call content _ ih =>
    rw [isSome_bodyOf?_append content.grouped, isSome_bodyOf?_append call.grouped, ih]

theorem Rewrites.allows (h : Rewrites z z') (allows : Allows z) : Allows z' := fun closed =>
  h.figuresSettled (allows (h.isSome_bodyOf? 0 ▸ closed))

/-- What is written in front of a parenthesis was there before, unless the parenthesis is that of a
content. -/
theorem Rewrites.exists_front (h : Rewrites z z') {u v : Twin} {p : Cell} (cut : z' = u ++ p :: v)
    (opens : p.1 = '(') (plain : ∀ c ∈ left u, c ≠ '(' ∧ c.isDigit = false) :
    (∃ t, z = u ++ p :: t ∧ Rewrites t v) ∨
      ∃ m q t, v = m ++ q :: t ∧ q.1 = ')' ∧ Grouped (· ≠ ';') (left m) := by
  induction h generalizing u with
  | nil => simp at cut
  | @keep c z z' more ih =>
    cases u with
    | nil =>
      obtain ⟨rfl, rfl⟩ := List.cons.inj cut
      exact .inl ⟨z, rfl, more⟩
    | cons d u =>
      obtain ⟨rfl, behind⟩ := List.cons.inj cut
      refine (ih behind (List.forall_mem_cons.mp plain).2).imp_left ?_
      rintro ⟨t, rfl, inner⟩
      exact ⟨t, rfl, inner⟩
  | @swap x y z z' _ content _ _ =>
    rcases content.shape with ⟨nonempty, digits⟩ | ⟨p', m, q, rfl, opens', closes, grouped⟩
    · obtain ⟨d, y, rfl⟩ := List.exists_cons_of_ne_nil nonempty
      have digit : d.1.isDigit = true := digits d.1 (by simp)
      cases u with
      | nil =>
        obtain ⟨rfl, -⟩ := List.cons.inj cut
        rw [opens] at digit
        exact absurd digit (by decide)
      | cons e u =>
        obtain ⟨rfl, -⟩ := List.cons.inj cut
        rw [(plain d.1 (by simp)).2] at digit
        cases digit
    · cases u with
      | nil =>
        obtain ⟨-, rfl⟩ := List.cons.inj cut
        exact .inr ⟨m, q, z', by simp, closes, grouped⟩
      | cons e u =>
        obtain ⟨rfl, -⟩ := List.cons.inj cut
        exact absurd opens' (plain p'.1 (by simp)).1

/-- **Rewriting keeps literal figures.** -/
theorem Rewrites.literal (h : Rewrites z z') (same : inWord before' = false → inWord before = false)
    (literal : Literal before z []) : Literal before' z' [] := by
  induction h generalizing before before' with
  | nil => trivial
  | @keep c z z' more ih =>
    refine ⟨fun k figures head found => ?_, ih id literal.2⟩
    have sn := k.shorthandName
    have here := literal.1 k figures
    rw [List.append_nil] at here found ⊢
    obtain ⟨outside, word, front, p, inside, cut, opens, isFront, rfl⟩ :=
      (headNamed_left_iff sn).mp found
    have plain : ∀ d ∈ left front, d ≠ '(' ∧ d.isDigit = false := fun d mem =>
      ⟨(isFront.plain sn d mem).2.1, isFront.isDigit sn d mem⟩
    rw [(drop_head cut).1]
    rcases (Rewrites.keep c more).exists_front cut opens plain with
      ⟨t, cut', inner⟩ | ⟨m, q, t, rfl, closes, grouped⟩
    · have there := here _ ((headNamed_left_iff sn).mpr
        ⟨same outside, word, front, p, t, cut', opens, isFront, rfl⟩)
      rw [(drop_head cut').1] at there
      exact inner.allows there
    · intro _
      rw [figuresSettled_append grouped fun _ _ => id]
      simp [FiguresSettled, closes]
  | swap call content _ ih =>
    rw [literal_append] at literal ⊢
    refine ⟨content.literal _ _, ih (fun _ => ?_) literal.2⟩
    rw [call.lastOr]
    decide

end Twin

/-! ## 3. Texts with literal figures -/

section Sites

variable {name : Text} {before : Option Char} {c : Char} {cs : Text} {h : CallHead}

/-- A head that is closed is that of a call in the text. -/
theorem exists_mem_callSites (sn : ShorthandName name) {a : Text}
    (found : headNamed name (lastOr none a) c cs = some h) {body : Text}
    (closed : bodyOf? 0 ((c :: cs).drop h.length) = some body) :
    ∃ call ∈ callSites (headNamed name) (a ++ c :: cs), call.body = body := by
  have begins : siteAt? (headNamed name) (lastOr none a) a.length c cs =
      some ⟨h.name, a.length, a.length + h.length + body.length + 1, body⟩ := by
    rw [siteAt?, found, Option.bind_some, closed]
    rfl
  exact ⟨_, (mem_callSites_iff sn.ne_nil sn.plain).mpr ⟨a, c, cs, rfl, begins⟩, rfl⟩

end Sites

namespace Twin

theorem Lists.mem {b : Twin} {xs : List Twin} (h : Lists b xs) :
    ∀ c ∈ b, c.1 = ';' ∨ ∃ x ∈ xs, c ∈ x := by
  induction h with
  | last => exact fun c mem => .inr ⟨_, List.mem_singleton_self _, mem⟩
  | more _ semicolon _ ih =>
    intro c mem
    rcases List.mem_append.mp mem with mem | mem
    · exact .inr ⟨_, List.mem_cons_self, mem⟩
    · rcases List.mem_cons.mp mem with rfl | mem
      · exact .inl semicolon
      · exact (ih c mem).imp_right fun ⟨x, there, mem⟩ => ⟨x, .tail _ there, mem⟩

theorem settled_of_forall {x z : Twin} {p : Cell} (closes : p.1 = ')')
    (h : ∀ c ∈ x, c.1 ≠ '(' ∧ c.2 = c.1) : Settled (x ++ p :: z) := by
  induction x with
  | nil => exact .inl closes
  | cons c x ih =>
    obtain ⟨first, others⟩ := List.forall_mem_cons.mp h
    exact .inr ⟨first.1, first.2, ih others⟩

/-- Figures without parentheses are settled beside themselves. -/
theorem figuresSettled_same {body : Text} (grouped : Grouped (fun _ => True) body) {z : Twin}
    {p : Cell} (closes : p.1 = ')')
    (figures : ∀ figure ∈ (semicolonArguments body).tail, '(' ∉ figure) :
    FiguresSettled 0 (same body ++ p :: z) := by
  obtain ⟨x, xs, lists⟩ := exists_lists (b := same body) (by rwa [left_same])
  have arguments := (lists.semicolonArguments (alike_same body)).1
  rw [left_same] at arguments
  rw [arguments, List.map_cons, List.map_cons, List.tail_cons] at figures
  have equal : ∀ c ∈ same body, c.2 = c.1 := by
    intro c mem
    obtain ⟨d, -, rfl⟩ := List.mem_map.mp mem
    rfl
  generalize same body = b at lists equal
  cases lists with
  | last grouped =>
    rw [figuresSettled_append grouped fun _ _ => id]
    simp [FiguresSettled, closes]
  | @more _ b q _ grouped semicolon others =>
    rw [List.append_assoc, figuresSettled_append grouped fun _ _ => id]
    have settled : Settled (b ++ p :: z) := settled_of_forall closes fun c mem => by
      refine ⟨fun opens => ?_, equal c (by simp [mem])⟩
      rcases others.mem c mem with semicolon | ⟨y, there, mem⟩
      · exact absurd (opens.symm.trans semicolon) (by decide)
      · refine figures _ (List.mem_map.mpr ⟨_, List.mem_map.mpr ⟨y, there, rfl⟩, rfl⟩) ?_
        rw [left_strip]
        exact mem_strip (by decide) (opens ▸ List.mem_map_of_mem mem)
    simpa [FiguresSettled, semicolon] using settled

/-- **A text with literal figures** is literal beside itself. -/
theorem literal_same {s : Text} (figures : FiguresLiteral s) : Literal none (same s) [] := by
  suffices all : ∀ a t : Text, s = a ++ t → Literal (lastOr none a) (same t) [] from all [] s rfl
  intro a t whole
  induction t generalizing a with
  | nil => trivial
  | cons c t ih =>
    refine ⟨fun k withFigures h found => ?_, ?_⟩
    · have inside : (same (c :: t)).drop h.length = same ((c :: t).drop h.length) :=
        List.map_drop.symm
      change headNamed _ _ c (left (same t ++ [])) = some h at found
      change Allows ((same (c :: t) ++ []).drop h.length)
      rw [List.append_nil, left_same] at found
      rw [List.append_nil, inside]
      intro closed
      rw [left_same] at closed
      obtain ⟨body, closed⟩ := Option.isSome_iff_exists.mp closed
      obtain ⟨call, mem, rfl⟩ := exists_mem_callSites k.shorthandName found closed
      obtain ⟨rest, cut⟩ := exists_of_bodyOf? closed
      have twins : same (call.body ++ ')' :: rest) = same call.body ++ (')', ')') :: same rest := by
        simp [same]
      rw [cut, twins]
      exact figuresSettled_same (grouped_of_bodyOf? closed) rfl
        (figures k withFigures call (whole ▸ mem))
    · have := ih (a ++ [c]) (by simp [whole])
      rwa [lastOr_append] at this

end Twin

end Haulage
