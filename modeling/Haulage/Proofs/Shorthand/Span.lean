/-
# The spans of calls

Calls are found by their heads, and end where counting parentheses says.  This module proves what a
search that spells calls out does to the text around them.

A call takes up a *span*: a name, blanks, and a body in parentheses that match.  A span that begins in
another ends in it (`IsSpan.behind_or_inside`), so two calls are apart or nested, whatever calls are
looked for (`pairwise_callSites`).  A search for the calls of one name passes over a head when it has
found it.  Nothing is missed in this way, for no head begins inside another (`IsFront.quiet`).  Where
the name is a row of letters that is plain; in general it takes a look at the blanks in the name.

So a search that spells calls out (`spellAll_rewrites`) replaces the outermost of those that can be
spelled out, and keeps every other character.
-/
import Haulage.Proofs.Shorthand.Grouping
import Haulage.Proofs.Shorthand.Head

namespace Haulage

/-! ## 1. Fronts of calls by any name -/

theorem plain_of_named {name word : Text} (plain : Plain name) (named : Named name word) :
    Plain word := by
  refine forall_of_named (fun w c kept same => ?_) named plain
  constructor <;>
  · rintro rfl
    obtain rfl := eq_paren_of_sameLetter same (by decide)
    simp at kept

/-- Only one text without parentheses stands in front of an opening one. -/
theorem Plain.eq_of_open {x y r r' : Text} (hx : Plain x) (hy : Plain y)
    (h : x ++ '(' :: r = y ++ '(' :: r') : x = y ∧ r = r' := by
  induction x generalizing y with
  | nil =>
    cases y with
    | nil => exact ⟨rfl, (List.cons.inj h).2⟩
    | cons d y => exact absurd (List.cons.inj h).1.symm (hy d List.mem_cons_self).1
  | cons c x ih =>
    cases y with
    | nil => exact absurd (List.cons.inj h).1 (hx c List.mem_cons_self).1
    | cons d y =>
      obtain ⟨rfl, behind⟩ := List.cons.inj h
      obtain ⟨rfl, rfl⟩ := ih (List.forall_mem_cons.mp hx).2 (List.forall_mem_cons.mp hy).2 behind
      exact ⟨rfl, rfl⟩

/-- A row that comes again further on, and ends in true both times, is true all along. -/
theorem forall_of_shift {p q b b' : List Bool} (further : q ≠ []) (same : p ++ b = q ++ (p ++ b'))
    (ends : ∀ x ∈ b, x = true) : ∀ x ∈ p, x = true := by
  have pos : 0 < q.length := List.length_pos_iff.mpr further
  -- from the back, since what stands at a place is what stands further on
  have back : ∀ k i, p.length ≤ i + k → ∀ x ∈ p[i]?, x = true := by
    intro k
    induction k with
    | zero =>
      intro i le x mem
      have beyond : p[i]? = none := List.getElem?_eq_none le
      rw [beyond] at mem
      cases mem
    | succ k ih =>
      intro i le x mem
      obtain ⟨below, -⟩ := List.getElem?_eq_some_iff.mp mem
      have moved : (p ++ b)[q.length + i]? = some x := by
        rw [same, List.getElem?_append_right (Nat.le_add_right ..), Nat.add_sub_cancel_left,
          List.getElem?_append_left below]
        exact mem
      by_cases inside : q.length + i < p.length
      · rw [List.getElem?_append_left inside] at moved
        exact ih _ (by omega) x moved
      · rw [List.getElem?_append_right (Nat.le_of_not_lt inside)] at moved
        exact ends x (List.mem_of_getElem? moved)
  intro x mem
  obtain ⟨i, there⟩ := List.getElem?_of_mem mem
  exact back p.length i (Nat.le_add_left ..) x there

section Fronts

variable {name word front : Text} {before : Option Char} {c : Char} {cs : Text}

theorem IsFront.plain_of_plain (h : IsFront name word front) (plain : Plain name) : Plain front := by
  obtain ⟨bs, rfl, blank⟩ := h.blanks
  intro d mem
  rcases List.mem_append.mp mem with mem | mem
  · exact plain_of_named plain h.named d mem
  · exact plain_of_blanks blank d mem

theorem inWord_lastOr_of_blanks {d : Char} {u : Text} (blank : ∀ c ∈ d :: u, isBlank c = true) :
    inWord (lastOr (some d) u) = false := by
  obtain ⟨e, mem, last⟩ := exists_lastOr d u
  rw [last, inWord_some, isNameChar_of_isBlank (blank e mem)]

/-- A name whose front comes again further on in the same front is blank. -/
theorem IsFront.blank_of_shift {word' x y : Text} (h : IsFront name word front)
    (h' : IsFront name word' y) (further : x ≠ []) (same : front = x ++ y) :
    ∀ d ∈ front, isBlank d = true := by
  obtain ⟨bs, rfl, blank⟩ := h.blanks
  obtain ⟨bs', rfl, -⟩ := h'.blanks
  have shifted := congrArg (List.map isBlank) same
  simp only [List.map_append, map_isBlank_of_named h.named, map_isBlank_of_named h'.named] at shifted
  have all : ∀ b ∈ name.map isBlank, b = true :=
    forall_of_shift (by simpa using further) shifted (by simpa using blank)
  rw [← map_isBlank_of_named h.named] at all
  intro d mem
  exact (List.mem_append.mp mem).elim (fun mem => all _ (List.mem_map_of_mem mem)) (blank d)

/-- **Inside a head none begins.**  The parenthesis of another would be the same one, so the name
would come again further on in the front.  Then it is blank, and no word begins among blanks. -/
theorem IsFront.quiet {d : Char} (h : IsFront name word (d :: front)) (nonempty : name ≠ [])
    (plain : Plain name) (rest : Text) : Quiet (headNamed name) (some d) (front ++ ['(']) rest := by
  refine quiet_iff.mpr fun u c v cut => Option.eq_none_iff_forall_ne_some.mpr fun head found => ?_
  obtain ⟨boundary, word', front', inside, whole, isFront, rfl⟩ :=
    headNamed_eq_some_iff_isFront.mp found
  have before : u <+: front := by
    refine List.prefix_of_prefix_length_le ⟨c :: v, cut.symm⟩ (List.prefix_append ..) ?_
    have := congrArg List.length cut
    simp only [List.length_append, List.length_cons, List.length_nil] at this
    omega
  have plainFront := h.plain_of_plain plain
  have plainAgain : Plain ((d :: u) ++ front') := by
    intro e mem
    rcases List.mem_append.mp mem with mem | mem
    · exact plainFront e ((List.cons_subset_cons d before.subset) mem)
    · exact isFront.plain_of_plain plain e mem
  have opens : (d :: front) ++ '(' :: rest = ((d :: u) ++ front') ++ '(' :: inside := by
    have := congrArg (· ++ rest) cut
    simp only [List.append_assoc, List.cons_append, List.nil_append] at this
    rw [List.cons_append, this, whole, List.append_assoc, List.cons_append]
  have again := (plainFront.eq_of_open plainAgain opens).1
  have blank := h.blank_of_shift isFront (List.cons_ne_nil d u) again
  obtain ⟨c', cs', rfl⟩ := List.exists_cons_of_ne_nil (isFront.ne_nil nonempty)
  obtain ⟨rfl, -⟩ := List.cons.inj whole
  rw [again] at blank
  have outside : inWord (lastOr (some d) u) = false :=
    inWord_lastOr_of_blanks fun e mem => blank e (List.mem_append_left _ mem)
  have outside' : isNameChar c = false := isNameChar_of_isBlank (blank c (by simp))
  simp [isBoundary, outside, outside'] at boundary

end Fronts

/-! ## 2. Heads of calls -/

/-- The text starts with the head of a call, with so much behind it: a name without parentheses,
blanks, and an opening parenthesis. -/
structure CallHead.Opens (h : CallHead) (s inside : Text) : Prop where
  front : ∃ blanks, s = h.name ++ (blanks ++ '(' :: inside) ∧ (∀ b ∈ blanks, isBlank b = true) ∧
    h.length = h.name.length + blanks.length + 1
  plain : Plain h.name

/-- Is whatever is found a head of a call? -/
def FindsHeads (head : HeadFinder) : Prop :=
  ∀ before c cs h, head before c cs = some h → ∃ inside, h.Opens (c :: cs) inside

theorem findsHeads_headNamed {name : Text} (plain : Plain name) : FindsHeads (headNamed name) := by
  intro before c cs h found
  obtain ⟨-, word, front, inside, whole, isFront, rfl⟩ := headNamed_eq_some_iff_isFront.mp found
  obtain ⟨blanks, rfl, blank⟩ := isFront.blanks
  refine ⟨inside, ⟨blanks, by rw [whole, List.append_assoc], blank, ?_⟩,
    plain_of_named plain isFront.named⟩
  rw [List.length_append]

theorem plain_of_word {w : Text} (word : ∀ c ∈ w, isNameChar c = true) : Plain w := fun c mem => by
  constructor <;>
  · rintro rfl
    exact absurd (word _ mem) (by decide)

theorem findsHeads_anyHead : FindsHeads anyHead := by
  intro before c cs h found
  unfold anyHead at found
  split at found
  · rename_i starts
    obtain ⟨n, opens, rfl⟩ := Option.map_eq_some_iff.mp found
    obtain ⟨blanks, inside, behind, blank, rfl⟩ := openingLength?_eq_some_iff.mp opens
    have whole : c :: cs = (c :: cs.takeWhile isNameChar) ++ (blanks ++ '(' :: inside) := by
      rw [← behind, List.cons_append, List.takeWhile_append_dropWhile]
    rw [Bool.and_eq_true] at starts
    refine ⟨inside, ⟨blanks, whole, blank, (Nat.add_assoc ..).symm⟩,
      List.forall_mem_cons.mpr ⟨?_, plain_of_word (List.all_eq_true.mp List.all_takeWhile)⟩⟩
    constructor <;>
    · rintro rfl
      exact absurd starts.1 (by decide)
  · cases found

theorem ShorthandName.plain {name : Text} (sn : ShorthandName name) : Plain name := by
  have capitals : ∀ w ∈ latinCapitals, w ≠ '(' ∧ w ≠ ')' := by decide
  exact fun w mem => capitals w (sn.capitals w mem)

/-- Whatever calls are looked for, heads are found, if the name has no parentheses. -/
theorem findsHeads_headFor {name? : Option Text} (plain : ∀ n ∈ name?, Plain n) :
    FindsHeads (headFor name?) := by
  match name? with
  | none | some [] => exact findsHeads_anyHead
  | some (c :: cs) => exact findsHeads_headNamed (plain _ rfl)

/-! ## 3. Spans -/

/-- The text has an opening parenthesis behind a part without any, and ends where that is closed. -/
def IsSpan (t : Text) : Prop :=
  ∃ front body, t = front ++ '(' :: (body ++ [')']) ∧ Plain front ∧ Grouped (fun _ => True) body

/-- Only one span begins a text. -/
theorem IsSpan.eq_of_append {t u r r' : Text} (ht : IsSpan t) (hu : IsSpan u)
    (same : t ++ r = u ++ r') : t = u := by
  obtain ⟨front, body, rfl, plain, grouped⟩ := ht
  obtain ⟨front', body', rfl, plain', grouped'⟩ := hu
  simp only [List.append_assoc, List.cons_append, List.nil_append] at same
  obtain ⟨rfl, inside⟩ := plain.eq_of_open plain' same
  obtain ⟨rfl, -⟩ := grouped.eq_of_closed grouped' inside
  rfl

/-- In a grouped text a span that begins in front of the end ends there as well. -/
theorem Grouped.behind_or_inside {p : Char → Prop} {g k u r r' : Text} (h : Grouped p g)
    (span : IsSpan u) (same : g ++ ')' :: r = k ++ (u ++ r')) :
    g.length < k.length ∨ ∃ w, g = k ++ (u ++ w) := by
  obtain ⟨front, body, rfl, plain, grouped⟩ := span
  simp only [List.append_assoc, List.cons_append, List.nil_append] at same ⊢
  rcases List.append_eq_append_iff.mp same with ⟨j, rfl, behind⟩ | ⟨j, rfl, behind⟩
  · cases j with
    | nil =>
      cases front with
      | nil => exact absurd (List.cons.inj behind).1 (by decide)
      | cons c front => exact absurd (List.cons.inj behind).1.symm (plain c List.mem_cons_self).2
    | cons c j =>
      left
      rw [List.length_append, List.length_cons]
      omega
  · right
    rcases List.append_eq_append_iff.mp behind with ⟨i, rfl, opens⟩ | ⟨i, rfl, opens⟩
    · cases i with
      | nil => exact absurd (List.cons.inj opens).1 (by decide)
      | cons c i =>
        rw [List.cons_append] at opens
        obtain ⟨rfl, closes⟩ := List.cons.inj opens
        rw [← List.append_assoc] at h
        obtain ⟨m, w, rfl, inner⟩ := h.exists_close
        rw [List.append_assoc, List.cons_append] at closes
        obtain ⟨rfl, -⟩ := grouped.eq_of_closed inner closes
        exact ⟨w, by simp⟩
    · cases i with
      | nil => exact absurd (List.cons.inj opens).1 (by decide)
      | cons c i =>
        obtain ⟨rfl, -⟩ := List.cons.inj opens
        exact absurd rfl (plain ')' (by simp)).2

/-- **A span that begins in another ends in it.** -/
theorem IsSpan.behind_or_inside {t m u r r' : Text} (ht : IsSpan t) (hu : IsSpan u)
    (same : t ++ r = m ++ (u ++ r')) : t.length ≤ m.length ∨ ∃ w, t = m ++ (u ++ w) := by
  obtain ⟨front, body, rfl, plain, grouped⟩ := ht
  have inFront (k : Text) (cut : front = m ++ k) :
      ∃ w, front ++ '(' :: (body ++ [')']) = m ++ (u ++ w) := by
    subst cut
    have span : IsSpan (k ++ '(' :: (body ++ [')'])) :=
      ⟨k, body, rfl, fun c mem => plain c (List.mem_append_right _ mem), grouped⟩
    rw [List.append_assoc, List.append_assoc, ← List.append_assoc k,
      List.append_cancel_left_eq] at same
    exact ⟨[], by rw [List.append_nil, List.append_assoc, span.eq_of_append hu same]⟩
  rw [List.append_assoc] at same
  rcases List.append_eq_append_iff.mp same with ⟨k, rfl, behind⟩ | ⟨k, cut, -⟩
  · cases k with
    | nil => exact .inr (inFront [] (by simp))
    | cons c k =>
      rw [List.cons_append, List.cons_append, List.append_assoc] at behind
      obtain ⟨rfl, inside⟩ := List.cons.inj behind
      rcases grouped.behind_or_inside hu inside with before | ⟨w, rfl⟩
      · left
        simp only [List.length_append, List.length_cons, List.length_nil]
        omega
      · exact .inr ⟨w ++ [')'], by simp⟩
  · exact .inr (inFront k cut)

/-! ## 4. Calls -/

/-- The call is written as the text is: its name, blanks, and its body between parentheses.  The
parentheses of the body match, so the text ends with the one that closes the call. -/
structure CallSite.WrittenAs (site : CallSite) (t : Text) : Prop where
  form : ∃ blanks, t = site.name ++ (blanks ++ '(' :: (site.body ++ [')'])) ∧
    ∀ b ∈ blanks, isBlank b = true
  grouped : Grouped (fun _ => True) site.body
  finish : site.finish = site.start + t.length

/-- The span of the one call lies in that of the other. -/
def CallSite.Inside (inner outer : CallSite) : Prop :=
  outer.start ≤ inner.start ∧ inner.finish ≤ outer.finish

instance (inner outer : CallSite) : Decidable (inner.Inside outer) :=
  inferInstanceAs (Decidable (_ ∧ _))

/-- The call stands in the text at its place. -/
structure CallSite.StandsIn (site : CallSite) (s : Text) : Prop where
  cut : ∃ x t r, s = x ++ (t ++ r) ∧ x.length = site.start ∧ site.WrittenAs t
  plain : Plain site.name

theorem CallSite.WrittenAs.isSpan {site : CallSite} {t : Text} (h : site.WrittenAs t)
    (plain : Plain site.name) : IsSpan t := by
  obtain ⟨blanks, rfl, blank⟩ := h.form
  refine ⟨site.name ++ blanks, site.body, (List.append_assoc ..).symm, fun c mem => ?_, h.grouped⟩
  exact (List.mem_append.mp mem).elim (plain c) (plain_of_blanks blank c)

theorem CallSite.WrittenAs.start_lt {site : CallSite} {t : Text} (h : site.WrittenAs t) :
    site.start < site.finish := by
  obtain ⟨blanks, rfl, -⟩ := h.form
  rw [h.finish]
  simp only [List.length_append, List.length_cons]
  omega

theorem CallSite.StandsIn.start_lt {site : CallSite} {s : Text} (h : site.StandsIn s) :
    site.start < s.length := by
  obtain ⟨x, t, r, rfl, start, written⟩ := h.cut
  have := written.start_lt
  have := written.finish
  simp only [List.length_append]
  omega

/-- **Two calls in a text are apart, or one is inside the other.** -/
theorem CallSite.StandsIn.apart_or_inside {a b : CallSite} {s : Text} (ha : a.StandsIn s)
    (hb : b.StandsIn s) (le : a.start ≤ b.start) : a.finish ≤ b.start ∨ b.Inside a := by
  obtain ⟨⟨x, t, r, rfl, startA, writtenA⟩, plainA⟩ := ha
  obtain ⟨⟨y, u, r', whole, startB, writtenB⟩, plainB⟩ := hb
  obtain ⟨m, rfl⟩ : x <+: y :=
    List.prefix_of_prefix_length_le (List.prefix_append x (t ++ r)) (whole ▸ List.prefix_append ..)
      (by omega)
  rw [List.append_assoc, List.append_cancel_left_eq] at whole
  have finishA := writtenA.finish
  have finishB := writtenB.finish
  rw [List.length_append] at startB
  rcases (writtenA.isSpan plainA).behind_or_inside (writtenB.isSpan plainB) whole with far | ⟨w, rfl⟩
  · left
    omega
  · right
    simp only [List.length_append] at finishA
    constructor <;> omega

/-- The call whose head begins at a place, if one does and is closed. -/
def siteAt? (head : HeadFinder) (before : Option Char) (place : Nat) (c : Char) (cs : Text) :
    Option CallSite :=
  (head before c cs).bind fun h => (bodyOf? 0 ((c :: cs).drop h.length)).map fun body =>
    ⟨h.name, place, place + h.length + body.length + 1, body⟩

theorem CallHead.Opens.drop {h : CallHead} {s inside : Text} (opens : h.Opens s inside) :
    s.drop h.length = inside := by
  obtain ⟨blanks, rfl, -, length⟩ := opens.front
  have front : h.name ++ (blanks ++ '(' :: inside) = (h.name ++ (blanks ++ ['('])) ++ inside := by
    simp
  have length : h.length = (h.name ++ (blanks ++ ['('])).length := by
    simp [length, Nat.add_assoc]
  rw [front, length, List.drop_left]

/-- A call begins where its head does. -/
theorem exists_writtenAs {head : HeadFinder} (finds : FindsHeads head) {before : Option Char}
    {place : Nat} {c : Char} {cs : Text} {site : CallSite}
    (found : siteAt? head before place c cs = some site) :
    ∃ t rest, c :: cs = t ++ rest ∧ site.start = place ∧ site.WrittenAs t ∧ Plain site.name := by
  obtain ⟨h, opens, found⟩ := Option.bind_eq_some_iff.mp found
  obtain ⟨body, closed, rfl⟩ := Option.map_eq_some_iff.mp found
  obtain ⟨inside, head⟩ := finds _ _ _ _ opens
  rw [head.drop] at closed
  obtain ⟨rest, rfl⟩ := exists_of_bodyOf? closed
  obtain ⟨blanks, whole, blank, length⟩ := head.front
  refine ⟨h.name ++ (blanks ++ '(' :: (body ++ [')'])), rest, by rw [whole]; simp, rfl,
    ⟨⟨blanks, rfl, blank⟩, grouped_of_bodyOf? closed, ?_⟩, head.plain⟩
  simp only [List.length_append, List.length_cons, List.length_nil, length]
  omega

/-! ## 5. The calls in a text -/

section CallSites

variable {head : HeadFinder} {s : Text} {site : CallSite}

/-- What the list of calls has begins somewhere in the text. -/
theorem exists_of_mem_callSites (mem : site ∈ callSites head s) :
    ∃ x c cs, s = x ++ c :: cs ∧ siteAt? head (lastOr none x) x.length c cs = some site := by
  obtain ⟨⟨start, h, body?⟩, place, closed⟩ := List.mem_filterMap.mp mem
  obtain ⟨x, c, cs, f, whole, same, found⟩ := Finder.exists_of_mem_placesFrom 0 0 place
  obtain ⟨h', opens, rfl⟩ := Option.map_eq_some_iff.mp found
  cases same
  rw [Nat.zero_add] at closed
  exact ⟨x, c, cs, whole, Option.bind_eq_some_iff.mpr ⟨h, opens, closed⟩⟩

theorem standsIn_of_mem_callSites (finds : FindsHeads head) (mem : site ∈ callSites head s) :
    site.StandsIn s := by
  obtain ⟨x, c, cs, rfl, found⟩ := exists_of_mem_callSites mem
  obtain ⟨t, rest, whole, start, written, plain⟩ := exists_writtenAs finds found
  exact ⟨⟨x, t, rest, by rw [whole], start.symm, written⟩, plain⟩

/-- **The calls in a text are apart or nested.** -/
theorem pairwise_callSites (finds : FindsHeads head) (s : Text) :
    (callSites head s).Pairwise fun a b => a.finish ≤ b.start ∨ b.Inside a := by
  have inOrder : (callSites head s).Pairwise fun a b => a.start ≤ b.start := by
    refine (Finder.pairwise_placesFrom 0 _).filterMap _ fun a b le site found site' found' => ?_
    obtain ⟨body, -, rfl⟩ := Option.map_eq_some_iff.mp found
    obtain ⟨body', -, rfl⟩ := Option.map_eq_some_iff.mp found'
    exact le
  refine inOrder.imp_of_mem fun mem mem' le => ?_
  have stands := standsIn_of_mem_callSites finds mem
  exact stands.apart_or_inside (standsIn_of_mem_callSites finds mem') le

end CallSites

section Named

variable {name : Text}

/-- No head of a call by the name is passed over with another. -/
theorem apart_headsWithBodies (nonempty : name ≠ []) (plain : Plain name) :
    (headsWithBodies (headNamed name)).Apart := by
  intro before c cs f found
  obtain ⟨h, opens, rfl⟩ := Option.map_eq_some_iff.mp found
  obtain ⟨-, word, front, inside, whole, isFront, rfl⟩ := headNamed_eq_some_iff_isFront.mp opens
  obtain ⟨d, front, rfl⟩ := List.exists_cons_of_ne_nil (isFront.ne_nil nonempty)
  obtain ⟨rfl, rfl⟩ := List.cons.inj whole
  have size : (c :: front).length + 1 - 1 = (front ++ ['(']).length := by simp
  have cut : front.append ('(' :: inside) = (front ++ ['(']) ++ inside :=
    (List.append_assoc front ['('] inside).symm
  dsimp only
  rw [size, cut, List.take_left, List.drop_left]
  exact (isFront.quiet nonempty plain inside).mono fun _ _ _ none => by
    rw [headsWithBodies, none, Option.map_none]

/-- **The calls by a name are found wherever they begin.** -/
theorem mem_callSites_iff (nonempty : name ≠ []) (plain : Plain name) {s : Text} {site : CallSite} :
    site ∈ callSites (headNamed name) s ↔ ∃ x c cs, s = x ++ c :: cs ∧
      siteAt? (headNamed name) (lastOr none x) x.length c cs = some site := by
  refine ⟨exists_of_mem_callSites, ?_⟩
  rintro ⟨x, c, cs, whole, found⟩
  obtain ⟨h, opens, closed⟩ := Option.bind_eq_some_iff.mp found
  have begins : headsWithBodies (headNamed name) (lastOr none x) c cs =
      some ⟨h.length - 1, h, bodyOf? 0 ((c :: cs).drop h.length)⟩ := by
    rw [headsWithBodies, opens, Option.map_some]
  have there := (Finder.mem_places_iff (apart_headsWithBodies nonempty plain)).mpr
    ⟨x, c, cs, _, whole, rfl, begins⟩
  exact List.mem_filterMap.mpr ⟨_, there, closed⟩

end Named

/-! ## 6. Rewriting -/

/-- Behind so many characters, the second text is the first with these calls by the name spelled out:
the text is passed over from left to right, and each character is kept, unless one of the calls
begins there.  Then what its arguments stand for is written in its place. -/
inductive RewritesCalls (name : Text) (spell : List Text → Option Text) :
    Nat → Text → List CallSite → Text → Prop
  | done {place : Nat} : RewritesCalls name spell place [] [] []
  | keep {place : Nat} {c : Char} {s out : Text} {sites : List CallSite}
      (more : RewritesCalls name spell (place + 1) s sites out) :
      RewritesCalls name spell place (c :: s) sites (c :: out)
  | call {site : CallSite} {t y rest out : Text} {sites : List CallSite} (written : site.WrittenAs t)
      (named : Named name site.name) (spelled : spell (semicolonArguments site.body) = some y)
      (more : RewritesCalls name spell site.finish rest sites out) :
      RewritesCalls name spell site.start (t ++ rest) (site :: sites) (y ++ out)

section Rewriting

variable {name : Text} {spell : List Text → Option Text} {before : Option Char} {place : Nat}
  {c : Char} {s t cs out : Text} {site : CallSite} {sites : List CallSite}

theorem RewritesCalls.le_start (h : RewritesCalls name spell place s sites out) :
    ∀ site ∈ sites, place ≤ site.start := by
  induction h with
  | done => exact List.forall_mem_nil _
  | keep _ ih => exact fun site mem => Nat.le_of_succ_le (ih site mem)
  | call written _ _ _ ih =>
    refine List.forall_mem_cons.mpr ⟨le_rfl, fun site mem => ?_⟩
    exact written.start_lt.le.trans (ih site mem)

theorem RewritesCalls.start_lt (h : RewritesCalls name spell place s sites out) :
    ∀ site ∈ sites, site.start < site.finish := by
  induction h with
  | done => exact List.forall_mem_nil _
  | keep _ ih => exact ih
  | call written _ _ _ ih => exact List.forall_mem_cons.mpr ⟨written.start_lt, ih⟩

/-- The calls that are spelled out are apart. -/
theorem RewritesCalls.pairwise (h : RewritesCalls name spell place s sites out) :
    sites.Pairwise fun a b => a.finish ≤ b.start := by
  induction h with
  | done => exact .nil
  | keep _ ih => exact ih
  | call _ _ _ more ih => exact .cons more.le_start ih

/-- A call that is spelled out lies in no other. -/
theorem RewritesCalls.not_inside (h : RewritesCalls name spell place s sites out) {a b : CallSite}
    (ha : a ∈ sites) (hb : b ∈ sites) (other : b ≠ a) : ¬ a.Inside b := by
  have apart : sites.Pairwise fun a b => a.finish ≤ b.start ∨ b.finish ≤ a.start :=
    h.pairwise.imp .inl
  have symm : Std.Symm fun a b : CallSite => a.finish ≤ b.start ∨ b.finish ≤ a.start :=
    ⟨fun _ _ => Or.symm⟩
  have cases := apart.forall ha hb other.symm
  have pos := h.start_lt a ha
  rintro ⟨low, high⟩
  omega

theorem RewritesCalls.isSome (h : RewritesCalls name spell place s sites out) :
    ∀ site ∈ sites, (spell (semicolonArguments site.body)).isSome = true := by
  induction h with
  | done => exact List.forall_mem_nil _
  | keep _ ih => exact ih
  | call _ _ spelled _ ih => exact List.forall_mem_cons.mpr ⟨by rw [spelled]; rfl, ih⟩

/-- What is spelled out is a call, from its head to the parenthesis that closes it. -/
theorem exists_of_spellableCalls (plain : Plain name) (place : Nat) {f : Find Text}
    (found : spellableCalls name spell before c cs = some f) :
    ∃ site u rest, cs = u ++ rest ∧ u.length = f.more ∧
      siteAt? (headNamed name) before place c cs = some site ∧ site.start = place ∧
      site.WrittenAs (c :: u) ∧ Named name site.name ∧
      spell (semicolonArguments site.body) = some f.content := by
  unfold spellableCalls at found
  split at found
  · cases found
  · rename_i h opens
    split at found
    · cases found
    · rename_i body closed
      obtain ⟨y, spelled, rfl⟩ := Option.map_eq_some_iff.mp found
      obtain ⟨-, word, front, inside, -, isFront, rfl⟩ := headNamed_eq_some_iff_isFront.mp opens
      have begins : siteAt? (headNamed name) before place c cs =
          some ⟨word, place, place + (front.length + 1) + body.length + 1, body⟩ := by
        rw [siteAt?, opens, Option.bind_some, closed]
        rfl
      obtain ⟨t, rest, whole, -, written, -⟩ := exists_writtenAs (findsHeads_headNamed plain) begins
      have length : t.length = front.length + 1 + body.length + 1 := by
        have : place + (front.length + 1) + body.length + 1 = place + t.length := written.finish
        omega
      obtain ⟨d, u, rfl⟩ := List.exists_cons_of_length_eq_add_one length
      rw [List.cons_append] at whole
      obtain ⟨rfl, rfl⟩ := List.cons.inj whole
      exact ⟨_, u, rest, rfl, Nat.succ.inj length, begins, rfl, written, isFront.named, spelled⟩

theorem spell_of_spellableCalls (none : spellableCalls name spell before c cs = none)
    (found : siteAt? (headNamed name) before place c cs = some site) :
    spell (semicolonArguments site.body) = Option.none := by
  obtain ⟨h, opens, found⟩ := Option.bind_eq_some_iff.mp found
  obtain ⟨body, closed, rfl⟩ := Option.map_eq_some_iff.mp found
  simpa [spellableCalls, opens, closed] using none

/-- The calls that a search behind so many characters of the text spells out: calls in the text, and
whatever else it might spell out lies in one of them. -/
structure Chooses (name : Text) (spell : List Text → Option Text) (s : Text) (place : Nat)
    (chosen : List CallSite) : Prop where
  calls : ∀ site ∈ chosen, site ∈ callSites (headNamed name) s
  others : ∀ site ∈ callSites (headNamed name) s, place ≤ site.start →
    (spell (semicolonArguments site.body)).isSome = true → ∃ other ∈ chosen, site.Inside other

theorem Chooses.nil (plain : Plain name) : Chooses name spell s s.length [] := by
  refine ⟨List.forall_mem_nil _, fun site mem behind => ?_⟩
  have before := (standsIn_of_mem_callSites (findsHeads_headNamed plain) mem).start_lt
  exact absurd behind (Nat.not_le_of_lt before)

theorem Chooses.keep (h : Chooses name spell s (place + 1) sites)
    (free : ∀ site ∈ callSites (headNamed name) s, site.start = place →
      spell (semicolonArguments site.body) = none) : Chooses name spell s place sites := by
  refine ⟨h.calls, fun site mem behind spelled => h.others site mem ?_ spelled⟩
  refine Nat.lt_of_le_of_ne behind fun here => ?_
  rw [free site mem here.symm] at spelled
  cases spelled

theorem Chooses.call (plain : Plain name) (h : Chooses name spell s site.finish sites)
    (mem : site ∈ callSites (headNamed name) s) :
    Chooses name spell s site.start (site :: sites) := by
  have stands {site : CallSite} (mem : site ∈ callSites (headNamed name) s) :=
    standsIn_of_mem_callSites (findsHeads_headNamed plain) mem
  refine ⟨List.forall_mem_cons.mpr ⟨mem, h.calls⟩, fun other mem' behind spelled => ?_⟩
  rcases (stands mem).apart_or_inside (stands mem') behind with apart | inside
  · obtain ⟨outer, chosen, inside⟩ := h.others other mem' apart spelled
    exact ⟨outer, .tail _ chosen, inside⟩
  · exact ⟨site, .head _, inside⟩

/-- **What one search does**, from any place on. -/
theorem exists_chooses (nonempty : name ≠ []) (plain : Plain name)
    (spell : List Text → Option Text) {a : Text} (whole : s = a ++ t) :
    ∃ chosen, Chooses name spell s a.length chosen ∧
      RewritesCalls name spell a.length t chosen
        (((spellableCalls name spell).piecesFrom (lastOr none a) 0 t).flatMap Piece.text) ∧
      (((spellableCalls name spell).piecesFrom (lastOr none a) 0 t).filterMap
        Piece.content?).length = chosen.length := by
  have finds := findsHeads_headNamed plain
  induction size : t.length using Nat.strong_induction_on generalizing a t with
  | _ n ih =>
  subst size
  cases t with
  | nil =>
    rw [List.append_nil] at whole
    exact ⟨[], whole ▸ .nil plain, .done, rfl⟩
  | cons c cs =>
    cases found : spellableCalls name spell (lastOr none a) c cs with
    | none =>
      have whole' : s = (a ++ [c]) ++ cs := by simp [whole]
      obtain ⟨chosen, chooses, rewrites, count⟩ := ih cs.length (Nat.lt_succ_self _) whole' rfl
      rw [lastOr_concat] at rewrites count
      rw [List.length_append] at chooses rewrites
      rw [Finder.piecesFrom, found]
      refine ⟨chosen, chooses.keep fun site mem here => ?_, .keep rewrites, count⟩
      obtain ⟨x, d, ds, cut, begins⟩ := exists_of_mem_callSites mem
      obtain ⟨-, -, -, start, -⟩ := exists_writtenAs finds begins
      obtain ⟨rfl, same⟩ := List.append_inj (whole.symm.trans cut) (here.symm.trans start)
      obtain ⟨rfl, rfl⟩ := List.cons.inj same
      exact spell_of_spellableCalls found begins
    | some f =>
      obtain ⟨more, y⟩ := f
      obtain ⟨site, u, rest, rfl, rfl, begins, start, written, named, spelled⟩ :=
        exists_of_spellableCalls plain a.length found
      have mem := (mem_callSites_iff nonempty plain).mpr ⟨a, c, _, whole, begins⟩
      have whole' : s = (a ++ c :: u) ++ rest := by simp [whole]
      have behind : (a ++ c :: u).length = site.finish := by
        rw [List.length_append, written.finish, start]
      obtain ⟨chosen, chooses, rewrites, count⟩ := ih rest.length (by simp) whole' rfl
      rw [behind] at chooses rewrites
      rw [lastOr_append] at rewrites count
      rw [← List.cons_append, Finder.piecesFrom_of_found found, ← start]
      exact ⟨site :: chosen, chooses.call plain mem, .call written named spelled rewrites,
        congrArg (· + 1) count⟩

/-- **A search touches only the calls it spells out.**  The calls that it replaces are apart, and
everything else is kept in its order.  They are the calls by the name whose arguments another text
can stand for, those aside that lie in another of them.  And the calls in the text are apart or
nested, whichever are looked for; the name has no parentheses, as no name of a function has. -/
theorem spellAll_rewrites (nonempty : name ≠ []) (plain : Plain name)
    (spell : List Text → Option Text) (s : Text) :
    ∃ chosen, RewritesCalls name spell 0 s chosen
        (Shorthand.spellAll (spellableCalls name spell) s).text ∧
      (Shorthand.spellAll (spellableCalls name spell) s).count = chosen.length ∧
      (chosen.Pairwise fun a b => a.finish ≤ b.start) ∧
      (∀ site, site ∈ chosen ↔ site ∈ callSites (headFor (some name)) s ∧
        (spell (semicolonArguments site.body)).isSome = true ∧
        ∀ other ∈ chosen, other ≠ site → ¬ site.Inside other) ∧
      ∀ name? : Option Text, (∀ n ∈ name?, Plain n) →
        (callSites (headFor name?) s).Pairwise fun a b => a.finish ≤ b.start ∨ b.Inside a := by
  obtain ⟨chosen, chooses, rewrites, count⟩ :=
    exists_chooses nonempty plain spell (List.nil_append s).symm
  have heads : headFor (some name) = headNamed name := by
    cases name with
    | nil => exact absurd rfl nonempty
    | cons c name => rfl
  rw [heads]
  refine ⟨chosen, rewrites, count, rewrites.pairwise, fun site => ?_,
    fun name? plain => pairwise_callSites (findsHeads_headFor plain) s⟩
  constructor
  · intro mem
    exact ⟨chooses.calls site mem, rewrites.isSome site mem,
      fun other mem' different => rewrites.not_inside mem mem' different⟩
  · rintro ⟨call, spelled, outermost⟩
    obtain ⟨other, mem, inside⟩ := chooses.others site call (Nat.zero_le _) spelled
    by_contra absent
    have different : other ≠ site := by
      rintro rfl
      exact absent mem
    exact outermost other mem different inside

theorem spellAll_rewrites_of_nested :
    let s := "SI(a;b;si (c;d;e))+SI(SI(1;2;3))".toList
    let outer : CallSite := ⟨"SI".toList, 0, 18, "a;b;si (c;d;e)".toList⟩
    ∃ chosen, RewritesCalls "SI".toList Shorthand.spellConditional 0 s chosen
        "(a ? b : si (c;d;e))+SI((1 ? 2 : 3))".toList ∧ chosen.length = 2 ∧ outer ∈ chosen := by
  intro s outer
  obtain ⟨chosen, rewrites, count, -, chosen_iff, -⟩ :=
    spellAll_rewrites (by decide) (by decide : Plain "SI".toList) Shorthand.spellConditional s
  have spelled : Shorthand.spellAll (spellableCalls "SI".toList Shorthand.spellConditional) s =
      ⟨"(a ? b : si (c;d;e))+SI((1 ? 2 : 3))".toList, 2⟩ := by decide +kernel
  have outermost : ∀ other ∈ callSites (headFor (some "SI".toList)) s, other ≠ outer →
      ¬ outer.Inside other := by decide +kernel
  rw [spelled] at rewrites count
  refine ⟨chosen, rewrites, count.symm, (chosen_iff outer).mpr ⟨?_, ?_, fun other mem => ?_⟩⟩
  · decide +kernel
  · decide +kernel
  · exact outermost other ((chosen_iff other).mp mem).1

/-- Where the name has a parenthesis, the head of one call can lie across the end of another. -/
example : (callSites (headNamed "f)".toList) "f)(f)(x)".toList).map
    (fun site => (site.start, site.finish)) = [(0, 5), (3, 8)] := by decide +kernel

end Rewriting

end Haulage
