/-
# The arguments of calls survive inlining

When numbers are inlined into a text that parses, the text still parses, and what it calls is called
with as many arguments as before (`parsed_inlineLiterals_of_numbers`).  Nothing is asked of the texts
in it, which may hold quotes and commas and the names of variables.

Two kinds of text are left out.  A comma between two arguments may stand directly between two digits,
at the end of a number or of a name and at the start of a number, and is then taken for a decimal
comma (`ArgumentCommas`).  Behind a point the exponent of a number is a word of its own and may be
the name of a variable (`NumbersApart`).

The proof goes through the lexemes of the text.  `ReplacesAll` says what may become of them, and
`exists_lexes_of_inlines` that this is what becomes of them when the text is rewritten.
-/
import Haulage.Proofs.Formula.Cutting
import Haulage.Proofs.Substitution.Rewriting

namespace Haulage

open Lexer (ClosesBefore Lexes Spells Unquoted)

/-! ## 1. Lexemes -/

/-- May the lexeme become these?  A text may say something else, and a name may be that of a
datum. -/
inductive Replaces (data : List (Text × Datum)) : Lexeme → List Lexeme → Prop
  | same (l : Lexeme) : Replaces data l [l]
  | text (s s' : Text) : Replaces data (.text s) [.text s']
  | name {n : Text} {d : Datum} (found : data.lookup n = some d) :
      Replaces data (.name n) d.form.lexemes

/-- May the lexemes become these, one after the other? -/
inductive ReplacesAll (data : List (Text × Datum)) : List Lexeme → List Lexeme → Prop
  | nil : ReplacesAll data [] []
  | cons {l : Lexeme} {ls ms ms' : List Lexeme} (first : Replaces data l ms)
      (more : ReplacesAll data ls ms') : ReplacesAll data (l :: ls) (ms ++ ms')

namespace ReplacesAll

variable {data : List (Text × Datum)} {ls ls' ms : List Lexeme}

theorem append_cases (h : ReplacesAll data (ls ++ ls') ms) :
    ∃ ms₁ ms₂, ms = ms₁ ++ ms₂ ∧ ReplacesAll data ls ms₁ ∧ ReplacesAll data ls' ms₂ := by
  induction ls generalizing ms with
  | nil => exact ⟨[], ms, rfl, .nil, h⟩
  | cons l ls ih =>
    cases h with
    | cons first more =>
      obtain ⟨ms₁, ms₂, rfl, front, back⟩ := ih more
      exact ⟨_, ms₂, (List.append_assoc ..).symm, .cons first front, back⟩

theorem symbol_cases {s : Symbol} (h : ReplacesAll data (.symbol s :: ls) ms) :
    ∃ ms', ms = .symbol s :: ms' ∧ ReplacesAll data ls ms' := by
  cases h with
  | cons first more =>
    cases first with
    | same => exact ⟨_, rfl, more⟩

theorem single_cases {l : Lexeme} (h : ReplacesAll data [l] ms) : Replaces data l ms := by
  cases h with
  | cons first more =>
    cases more with
    | nil => rwa [List.append_nil]

/-- The name of a function stays. -/
theorem free_cases {n : Text} (free : data.lookup n = none)
    (h : ReplacesAll data (.name n :: ls) ms) :
    ∃ ms', ms = .name n :: ms' ∧ ReplacesAll data ls ms' := by
  cases h with
  | cons first more =>
    cases first with
    | same => exact ⟨_, rfl, more⟩
    | name found => simp [free] at found

end ReplacesAll

/-! ## 2. Forms -/

namespace Expr

/-- What an expression calls, with the number of arguments. -/
def arities (e : Expr) : List (Text × Nat) := e.calls.map fun call => (call.1, call.2.length)

/-- What expressions call, with the number of arguments. -/
def aritiesIn (es : List Expr) : List (Text × Nat) :=
  (callsIn es).map fun call => (call.1, call.2.length)

variable (e : Expr) (es : List Expr)

@[simp] theorem arities_signed (sign : Sign) : (signed sign e).arities = e.arities := rfl

@[simp] theorem arities_binary (o : Operator) (l r : Expr) :
    (binary o l r).arities = l.arities ++ r.arities := by
  simp [arities, calls]

@[simp] theorem arities_conditional (c a b : Expr) :
    (conditional c a b).arities = c.arities ++ (a.arities ++ b.arities) := by
  simp [arities, calls]

@[simp] theorem arities_call (n : Text) : (call n es).arities = (n, es.length) :: aritiesIn es := rfl

@[simp] theorem aritiesIn_nil : aritiesIn [] = [] := rfl

@[simp] theorem aritiesIn_cons : aritiesIn (e :: es) = e.arities ++ aritiesIn es := by
  simp [aritiesIn, arities, callsIn]

end Expr

theorem Datum.arities_form (d : Datum) : d.form.expr.arities = [] := by
  rw [d.expr_form]
  cases d with
  | text s => rfl
  | number x =>
    rw [Datum.expr]
    split <;> rfl

/-- May the expression become this one, when its lexemes are replaced? -/
inductive Expr.Replaces (data : List (Text × Datum)) : Expr → Expr → Prop
  | number (x : Float) : Replaces data (.number x) (.number x)
  | text (s s' : Text) : Replaces data (.text s) (.text s')
  | name (n : Text) : Replaces data (.name n) (.name n)
  | datum {n : Text} {d : Datum} (found : data.lookup n = some d) :
      Replaces data (.name n) d.form.expr
  | signed (sign : Sign) {e e' : Expr} (operand : Replaces data e e') :
      Replaces data (.signed sign e) (.signed sign e')
  | binary (o : Operator) {l l' r r' : Expr} (left : Replaces data l l')
      (right : Replaces data r r') : Replaces data (.binary o l r) (.binary o l' r')
  | conditional {c c' a a' b b' : Expr} (condition : Replaces data c c')
      (whenTrue : Replaces data a a') (whenFalse : Replaces data b b') :
      Replaces data (.conditional c a b) (.conditional c' a' b')
  | call (n : Text) {es es' : List Expr} (arguments : List.Forall₂ (Replaces data) es es') :
      Replaces data (.call n es) (.call n es')

section Forms

variable {data : List (Text × Datum)}

mutual

/-- What an expression calls stays when its lexemes are replaced. -/
theorem Expr.arities_of_replaces : (e : Expr) → ∀ e', e.Replaces data e' → e'.arities = e.arities
  | .number _, _, h => by
    cases h
    rfl
  | .text _, _, h => by
    cases h
    rfl
  | .name _, _, h => by
    cases h with
    | name => rfl
    | @datum _ d => exact d.arities_form
  | .signed _ e, _, h => by
    cases h with
    | signed _ operand => simp [e.arities_of_replaces _ operand]
  | .binary _ l r, _, h => by
    cases h with
    | binary _ left right => simp [l.arities_of_replaces _ left, r.arities_of_replaces _ right]
  | .conditional c a b, _, h => by
    cases h with
    | conditional condition whenTrue whenFalse =>
      simp [c.arities_of_replaces _ condition, a.arities_of_replaces _ whenTrue,
        b.arities_of_replaces _ whenFalse]
  | .call _ es, _, h => by
    cases h with
    | call _ arguments => simp [arguments.length_eq, aritiesIn_of_replaces es _ arguments]

theorem Expr.aritiesIn_of_replaces : (es : List Expr) → ∀ es',
    List.Forall₂ (Expr.Replaces data) es es' → aritiesIn es' = aritiesIn es
  | [], _, h => by
    cases h
    rfl
  | e :: es, _, h => by
    cases h with
    | cons first more =>
      simp [e.arities_of_replaces _ first, aritiesIn_of_replaces es _ more]

end

mutual

/-- **With its lexemes replaced a form is still one.** -/
theorem Form.exists_replaces : (f : Form) → f.WellFormed →
    (∀ call ∈ f.calls, data.lookup call.1 = none) → ∀ ms, ReplacesAll data f.lexemes ms →
    ∃ f' : Form, f'.WellFormed ∧ f'.rank = f.rank ∧ f'.lexemes = ms ∧
      f.expr.Replaces data f'.expr
  | .number x, _, _, ms, h => by
    cases h.single_cases with
    | same => exact ⟨.number x, trivial, rfl, rfl, .number x⟩
  | .text s, _, _, ms, h => by
    cases h.single_cases with
    | same => exact ⟨.text s, trivial, rfl, rfl, .text s s⟩
    | text _ s' => exact ⟨.text s', trivial, rfl, rfl, .text s s'⟩
  | .name n, _, _, ms, h => by
    cases h.single_cases with
    | same => exact ⟨.name n, trivial, rfl, rfl, .name n⟩
    | @name _ d found => exact ⟨d.form, d.wellFormed_form, d.rank_form, rfl, .datum found⟩
  | .paren f, wf, free, ms, h => by
    obtain ⟨_, rfl, inside⟩ := h.symbol_cases
    obtain ⟨ms, _, rfl, inner, close⟩ := inside.append_cases
    obtain ⟨_, rfl, rest⟩ := close.symbol_cases
    cases rest
    obtain ⟨f', wf', -, rfl, replaced⟩ := f.exists_replaces wf free ms inner
    exact ⟨.paren f', wf', rfl, rfl, replaced⟩
  | .signed sign f, wf, free, ms, h => by
    obtain ⟨ms, rfl, inner⟩ := h.symbol_cases
    obtain ⟨f', wf', rank, rfl, replaced⟩ := f.exists_replaces wf.1 free ms inner
    exact ⟨.signed sign f', ⟨wf', rank ▸ wf.2⟩, rfl, rfl, .signed sign replaced⟩
  | .binary o l r, wf, free, ms, h => by
    simp only [Form.calls, List.mem_append, or_imp, forall_and] at free
    obtain ⟨ms, _, rfl, left, rest⟩ := h.append_cases
    obtain ⟨ms', rfl, right⟩ := rest.symbol_cases
    obtain ⟨l', wfl, rankl, rfl, replacedl⟩ := l.exists_replaces wf.1 free.1 ms left
    obtain ⟨r', wfr, rankr, rfl, replacedr⟩ := r.exists_replaces wf.2.1 free.2 ms' right
    exact ⟨.binary o l' r', ⟨wfl, wfr, by rw [rankl, rankr]; exact wf.2.2⟩, rfl, rfl,
      .binary o replacedl replacedr⟩
  | .choice c a b, wf, free, ms, h => by
    simp only [Form.calls, List.mem_append, or_imp, forall_and] at free
    obtain ⟨ms, _, rfl, condition, rest⟩ := h.append_cases
    obtain ⟨_, rfl, both⟩ := rest.symbol_cases
    obtain ⟨ms', _, rfl, whenTrue, back⟩ := both.append_cases
    obtain ⟨ms'', rfl, whenFalse⟩ := back.symbol_cases
    obtain ⟨c', wfc, rankc, rfl, replacedc⟩ := c.exists_replaces wf.1 free.1 ms condition
    obtain ⟨a', wfa, -, rfl, replaceda⟩ := a.exists_replaces wf.2.1 free.2.1 ms' whenTrue
    obtain ⟨b', wfb, -, rfl, replacedb⟩ := b.exists_replaces wf.2.2.1 free.2.2 ms'' whenFalse
    exact ⟨.choice c' a' b', ⟨wfc, wfa, wfb, rankc ▸ wf.2.2.2⟩, rfl, rfl,
      .conditional replacedc replaceda replacedb⟩
  | .emptyCall n, _, free, ms, h => by
    obtain ⟨_, rfl, behind⟩ := h.free_cases (free (n, none) (by simp [Form.calls]))
    obtain ⟨_, rfl, close⟩ := behind.symbol_cases
    obtain ⟨_, rfl, rest⟩ := close.symbol_cases
    cases rest
    exact ⟨.emptyCall n, trivial, rfl, rfl, .call n .nil⟩
  | .call n as, wf, free, ms, h => by
    simp only [Form.calls, List.forall_mem_cons] at free
    obtain ⟨_, rfl, behind⟩ := h.free_cases free.1
    obtain ⟨_, rfl, inside⟩ := behind.symbol_cases
    obtain ⟨ms, _, rfl, inner, close⟩ := inside.append_cases
    obtain ⟨_, rfl, rest⟩ := close.symbol_cases
    cases rest
    obtain ⟨as', wf', rfl, replaced⟩ := as.exists_replaces wf free.2 ms inner
    exact ⟨.call n as', wf', rfl, rfl, .call n replaced⟩

/-- With their lexemes replaced arguments are as many as before. -/
theorem Arguments.exists_replaces : (as : Arguments) → as.WellFormed →
    (∀ call ∈ as.calls, data.lookup call.1 = none) → ∀ ms, ReplacesAll data as.lexemes ms →
    ∃ as' : Arguments, as'.WellFormed ∧ as'.lexemes = ms ∧
      List.Forall₂ (Expr.Replaces data) as.exprs as'.exprs
  | .last f, wf, free, ms, h => by
    obtain ⟨f', wf', -, rfl, replaced⟩ := f.exists_replaces wf free ms h
    exact ⟨.last f', wf', rfl, .cons replaced .nil⟩
  | .more f s as, wf, free, ms, h => by
    simp only [Arguments.calls, List.mem_append, or_imp, forall_and] at free
    obtain ⟨ms, _, rfl, first, rest⟩ := h.append_cases
    obtain ⟨ms', rfl, others⟩ := rest.symbol_cases
    obtain ⟨f', wff, -, rfl, replacedf⟩ := f.exists_replaces wf.1 free.1 ms first
    obtain ⟨as', wfas, rfl, replaced⟩ := as.exists_replaces wf.2 free.2 ms' others
    exact ⟨.more f' s as', ⟨wff, wfas⟩, rfl, .cons replacedf replaced⟩

end

/-- **With its lexemes replaced a form is still one**, and what it calls stays. -/
theorem Form.exists_replaced (f : Form) (wf : f.WellFormed)
    (free : ∀ call ∈ f.calls, data.lookup call.1 = none) (ms : List Lexeme)
    (h : ReplacesAll data f.lexemes ms) :
    ∃ f' : Form, f'.WellFormed ∧ f'.rank = f.rank ∧ f'.lexemes = ms ∧
      f'.expr.arities = f.expr.arities := by
  obtain ⟨f', wf', rank, same, replaced⟩ := f.exists_replaces wf free ms h
  exact ⟨f', wf', rank, same, f.expr.arities_of_replaces _ replaced⟩

end Forms

/-! ## 3. Spellings -/

section Spellings

variable {data : List (Text × Datum)} {before : Option Char} {x rest t : Text}

/-- Where no name of a datum is a word of its own and no comma stands, nothing is rewritten. -/
theorem Inlines.eq_self (h : Inlines data before x rest t) (comma : ',' ∉ x)
    (none : ∀ p n q, x = p ++ (n ++ q) → inWord (lastOr before p) = false →
      inWord (q ++ rest).head? = false → data.lookup n = none) : t = x := by
  induction h with
  | nil => rfl
  | @keep before c x rest t _ ih =>
    simp only [List.mem_cons, not_or] at comma
    rw [ih comma.2 fun p n q whole => ?_]
    rw [← lastOr_cons before]
    exact none (c :: p) n q (by rw [whole, List.cons_append])
  | comma => exact absurd List.mem_cons_self comma
  | @name _ c cs x _ _ _ found outside stop =>
    have absent := none [] (c :: cs) x rfl outside stop
    simp [absent] at found

/-- Inside a word nothing is rewritten. -/
theorem Inlines.eq_self_of_inWord (h : Inlines data before x rest t)
    (inside : inWord before = true) (word : ∀ c ∈ x, isNameChar c = true) : t = x := by
  refine h.eq_self (fun mem => absurd (word _ mem) (by decide)) fun p n q whole outside => ?_
  rcases List.eq_nil_or_concat' p with rfl | ⟨p, c, rfl⟩
  · simp [inside] at outside
  · have letter : isNameChar c = true := word c (by simp [whole])
    rw [lastOr_append, lastOr_cons, lastOr_nil, inWord_some, letter] at outside
    cases outside

/-- A word stays or becomes the literal of the datum of that name. -/
theorem Inlines.word_cases {c : Char} {cs : Text} (h : Inlines data before (c :: cs) rest t)
    (word : ∀ d ∈ c :: cs, isNameChar d = true) :
    t = c :: cs ∨ ∃ d, data.lookup (c :: cs) = some d ∧ t = d.literal := by
  obtain ⟨first, inside⟩ := List.forall_mem_cons.mp word
  generalize whole : c :: cs = w at h
  cases h with
  | nil => cases whole
  | keep more =>
    cases whole
    rw [more.eq_self_of_inWord first inside]
    exact .inl rfl
  | comma =>
    cases whole
    exact absurd first (by decide)
  | @name _ c ds x _ _ d found _ stop more =>
    obtain ⟨rfl, rfl⟩ := List.cons.inj whole
    cases x with
    | nil =>
      cases more with
      | nil => exact .inr ⟨d, by rw [List.append_nil, found], List.append_nil _⟩
    | cons e x => simp [inside e (by simp)] at stop

variable (names : ∀ entry ∈ data, IsName entry.1)

include names

/-- Where there are no letters of ASCII and no comma, nothing is rewritten. -/
theorem Inlines.eq_self_of_not_alpha (h : Inlines data before x rest t) (comma : ',' ∉ x)
    (other : ∀ c ∈ x, c.isAlpha = false) : t = x := by
  refine h.eq_self comma fun p n q whole _ _ => Option.eq_none_iff_forall_ne_some.mpr fun d found => ?_
  obtain ⟨c, cs, rfl, alpha, -⟩ := names _ (mem_of_lookup found)
  simp [other c (by simp [whole])] at alpha

/-- A symbol stays, if it is no decimal comma. -/
theorem Inlines.eq_self_of_symbol {s : Symbol} {sp : Text} (h : Inlines data before sp rest t)
    (spells : Spells sp (.symbol s) rest)
    (comma : sp = [','] → ¬(before.any isDecimalDigit = true ∧
      rest.head?.any isDecimalDigit = true)) : t = sp := by
  have letter {c : Char} (mem : c ∈ Lexer.symbolChars) : c.isAlpha = false :=
    isAlpha_eq_false (Lexer.class_of_mem_symbolChars mem).2.1
  cases spells with
  | @pair c d _ _ pair =>
    obtain ⟨first, rfl⟩ := Lexer.mem_symbolChars_of_ofPair? pair
    have other : ',' ≠ c := by
      rintro rfl
      cases pair
    exact h.eq_self_of_not_alpha names (by simp [other]) (by simp [letter first])
  | @single c _ _ single =>
    have letter := letter (Lexer.mem_symbolChars_of_ofChar? single)
    by_cases decimal : c = ','
    · subst decimal
      obtain ⟨_, more, rfl | ⟨-, digit, digit', -⟩⟩ := h.cons_cases names letter
      · cases more
        rfl
      · exact absurd ⟨digit, digit'⟩ (comma rfl)
    · exact h.eq_self_of_not_alpha names (by simpa using Ne.symm decimal) (by simpa using letter)

end Spellings

/-! ## 4. Text literals -/

/-- A number in a text literal is read as it is. -/
theorem unquoted_literal {x : Float} (finite : x.isFinite = true) :
    Unquoted (Datum.literal (.number x)) := by
  have plain : ∀ c ∈ numberText x, c ≠ '"' ∧ c ≠ '\\' := by
    rintro c mem
    have other : ∀ d ∈ ".e+-".toList, d ≠ '"' ∧ d ≠ '\\' := by decide
    rcases mem_numberText finite mem with digit | mark
    · constructor
      · rintro rfl
        cases digit
      · rintro rfl
        cases digit
    · exact other c mark
  rw [Datum.literal, Number.literal]
  split
  · exact .cons (by decide) (.append plain (.single (by decide)))
  · exact plain

/-- A datum is written with some character. -/
theorem Datum.literal_ne_nil {d : Datum} (finite : d.isFinite = true) : d.literal ≠ [] := by
  intro empty
  have lexes := d.lexes_literal finite
  rw [empty] at lexes
  exact d.form.phrase.ne_nil lexes.eq_nil

theorem unquoted_of_numbers {data : List (Text × Datum)}
    (numbers : ∀ entry ∈ data, ∃ x, entry.2 = .number x ∧ x.isFinite = true) :
    ∀ entry ∈ data, Unquoted entry.2.literal ∧ entry.2.literal ≠ [] := fun entry mem => by
  obtain ⟨x, number, finite⟩ := numbers entry mem
  rw [number]
  exact ⟨unquoted_literal finite, Datum.literal_ne_nil finite⟩

theorem unquoted_of_word {w : Text} (word : ∀ c ∈ w, isNameChar c = true) : Unquoted w :=
  fun c mem => ⟨by rintro rfl; exact absurd (word _ mem) (by decide),
    by rintro rfl; exact absurd (word _ mem) (by decide)⟩

section Quoted

variable {data : List (Text × Datum)} (names : ∀ entry ∈ data, IsName entry.1)
  (plain : ∀ entry ∈ data, Unquoted entry.2.literal ∧ entry.2.literal ≠ [])

include names plain

/-- **A text literal stays one**, whatever is rewritten in it.  Where a backslash stands in front of
what is rewritten it takes the first character of that. -/
theorem Inlines.closesBefore {before : Option Char} {x rest t : Text}
    (h : Inlines data before x rest t) :
    (ClosesBefore rest x → ClosesBefore rest t) ∧
    (x ≠ [] → ClosesBefore rest x.tail → t ≠ [] ∧ ClosesBefore rest t.tail) := by
  induction h with
  | nil => exact ⟨id, fun nonempty => absurd rfl nonempty⟩
  | @keep _ c x rest t more ih =>
    refine ⟨fun closes => ?_, fun _ closes => ⟨List.cons_ne_nil c t, ih.1 closes⟩⟩
    by_cases quote : c = '"'
    · subst quote
      obtain rfl := ClosesBefore.quote_iff.mp closes
      cases more
      exact closes
    by_cases escape : c = '\\'
    · subst escape
      cases x with
      | nil =>
        cases more
        exact closes
      | cons d x =>
        obtain ⟨nonempty, closes⟩ := ih.2 (List.cons_ne_nil d x) (ClosesBefore.escape_iff.mp closes)
        obtain ⟨e, t, rfl⟩ := List.exists_cons_of_ne_nil nonempty
        exact ClosesBefore.escape_iff.mpr closes
    · rw [ClosesBefore.cons_iff quote escape] at closes ⊢
      exact ih.1 closes
  | @comma _ x rest t _ _ _ ih =>
    refine ⟨fun closes => ?_, fun _ closes => ⟨List.cons_ne_nil _ t, ih.1 closes⟩⟩
    rw [ClosesBefore.cons_iff (by decide) (by decide)] at closes ⊢
    exact ih.1 closes
  | @name _ c cs x rest t d found _ _ _ ih =>
    have word := unquoted_of_word (names _ (mem_of_lookup found)).all
    obtain ⟨literal, nonempty⟩ := plain _ (mem_of_lookup found)
    dsimp only at word literal nonempty
    refine ⟨fun closes => ?_, fun _ closes => ?_⟩
    · rw [← List.cons_append, ClosesBefore.append_iff word] at closes
      exact (ClosesBefore.append_iff literal).mpr (ih.1 closes)
    · obtain ⟨e, es, whole⟩ := List.exists_cons_of_ne_nil nonempty
      rw [whole] at literal ⊢
      rw [List.tail_cons, ClosesBefore.append_iff fun c mem => word c (.tail _ mem)] at closes
      refine ⟨List.cons_ne_nil e _, ?_⟩
      exact (ClosesBefore.append_iff fun c mem => literal c (.tail _ mem)).mpr (ih.1 closes)

/-- A text becomes a text. -/
theorem Inlines.exists_text {before : Option Char} {sp rest t s : Text}
    (h : Inlines data before sp rest t) (spells : Spells sp (.text s) rest) :
    ∃ s', Spells t (.text s') rest := by
  cases spells with
  | text read =>
    obtain ⟨_, more, rfl | ⟨comma, -⟩⟩ := h.cons_cases names (by decide)
    · obtain ⟨s', read'⟩ := (more.closesBefore names plain).1 ⟨s, read⟩
      exact ⟨s', .text read'⟩
    · exact absurd comma (by decide)

end Quoted

/-! ## 5. The lexemes of a text -/

/-- No comma that is a token of the text stands directly between two digits.  The one in front may
end a number or a name; the one behind starts a number. -/
def ArgumentCommas (s : Text) : Prop :=
  ∀ x y, s = x ++ ',' :: y → (∃ ls, Lexes x ls) →
    ¬(x.getLast?.any isDecimalDigit = true ∧ y.head?.any isDecimalDigit = true)

/-- No number of the text holds the name of a datum as a word of its own.  Only its exponent can be
one, and only behind a point. -/
def NumbersApart (data : List (Text × Datum)) (s : Text) : Prop :=
  ∀ x p n q y v, s = x ++ (p ++ (n ++ q) ++ y) → (∃ ls, Lexes x ls) →
    Spells (p ++ (n ++ q)) (.number v) y → inWord p.getLast? = false →
    inWord (q ++ y).head? = false → data.lookup n = none

/-- No word goes on from the spelling of a lexeme into what follows it. -/
theorem between_of_spells {sp rest : Text} {l : Lexeme} (h : Spells sp l rest)
    (ends : Lexer.Ends l rest) (before : Option Char) :
    inWord (lastOr before sp) = false ∨ inWord rest.head? = false := by
  by_cases text : ∃ s, l = .text s
  · obtain ⟨s, rfl⟩ := text
    cases h with
    | text read =>
      left
      rw [lastOr, List.getLast?_cons, Lexer.getLast?_of_readQuoted? read]
      exact (by decide : isNameChar '"' = false)
  · exact inWord_of_spells h ends (not_exists.mp text) before

section Walk

variable {data : List (Text × Datum)} (names : ∀ entry ∈ data, IsName entry.1)
  (numbers : ∀ entry ∈ data, ∃ x, entry.2 = .number x ∧ x.isFinite = true)

theorem lastOr_none (x : Text) : lastOr none x = x.getLast? := Option.or_none

include names numbers

/-- **What becomes of one lexeme** of a text. -/
theorem exists_lexes_of_spells {x sp rest t : Text} {front : List Lexeme} {l : Lexeme}
    (hx : Lexes x front) (spells : Spells sp l rest) (commas : ArgumentCommas (x ++ (sp ++ rest)))
    (apart : NumbersApart data (x ++ (sp ++ rest)))
    (h : Inlines data (lastOr none x) sp rest t) : ∃ ms, Replaces data l ms ∧ Lexes t ms := by
  have finite : ∀ entry ∈ data, entry.2.isFinite = true := fun entry mem => by
    obtain ⟨x, number, finite⟩ := numbers entry mem
    rwa [number]
  cases l with
  | number v =>
    have comma : ',' ∉ sp := fun mem => absurd (spells.mem_number mem) (by decide)
    have same : t = sp := h.eq_self comma fun p n q whole outside stop => by
      subst whole
      refine apart x p n q rest v rfl ⟨front, hx⟩ spells ?_ stop
      cases p with
      | nil => rfl
      | cons c p => rwa [lastOr_cons, ← lastOr_cons none, lastOr_none] at outside
    exact ⟨_, .same _, same ▸ spells.lexes⟩
  | text s =>
    obtain ⟨s', spells'⟩ := h.exists_text names (unquoted_of_numbers numbers) spells
    exact ⟨_, .text s s', spells'.lexes⟩
  | name n =>
    have spelled := spells
    cases spells with
    | @name c cs _ start _ inside _ =>
      rcases h.word_cases (List.forall_mem_cons.mpr ⟨isNameChar_of_isNameStart start, inside⟩)
        with rfl | ⟨d, found, rfl⟩
      · exact ⟨_, .same _, spelled.lexes⟩
      · exact ⟨_, .name found, d.lexes_literal (finite _ (mem_of_lookup found))⟩
  | symbol s =>
    have same : t = sp := by
      refine h.eq_self_of_symbol names spells fun comma => ?_
      subst comma
      rw [lastOr_none]
      exact commas x rest rfl ⟨front, hx⟩
    exact ⟨_, .same _, same ▸ spells.lexes⟩

/-- **What becomes of all lexemes** behind a part of the text that was already passed. -/
theorem exists_lexes_of_inlines {x s t : Text} {front ls : List Lexeme} (hx : Lexes x front)
    (lexes : Lexes s ls) (apart : (front ++ ls).IsChain Lexer.Apart)
    (commas : ArgumentCommas (x ++ s)) (exponents : NumbersApart data (x ++ s))
    (h : Inlines data (lastOr none x) s [] t) :
    ∃ ms, ReplacesAll data ls ms ∧ (ms.IsChain Lexer.Apart → Lexes t ms) := by
  induction lexes generalizing x front t with
  | nil =>
    cases h
    exact ⟨[], .nil, fun _ => .nil⟩
  | @blank c cs ls blank more ih =>
    have name := isNameChar_of_isBlank blank
    rw [← List.singleton_append] at h
    obtain ⟨t₁, t₂, rfl, first, rest⟩ := h.split names (.inl name)
    have comma : ',' ∉ [c] := by
      rintro mem
      obtain rfl := List.mem_singleton.mp mem
      exact absurd blank (by decide)
    obtain rfl : t₁ = [c] :=
      first.eq_self_of_not_alpha names comma (by simpa using isAlpha_eq_false name)
    have front' : Lexes (x ++ [c]) front :=
      hx.append_blanks apart.left_of_append (by simpa using blank)
    have assoc : x ++ c :: cs = x ++ [c] ++ cs := by simp
    rw [assoc] at commas exponents
    rw [← lastOr_append] at rest
    obtain ⟨ms, replaced, lexes⟩ := ih front' apart commas exponents rest
    exact ⟨ms, replaced, fun chain => .blank blank (lexes chain)⟩
  | @token sp rest l ls spells more ih =>
    have ends : Lexer.Ends l rest := more.ends fun l' next =>
      apart.right_of_append.rel_head? next
    have between : inWord (lastOr (lastOr none x) sp) = false ∨
        inWord (rest ++ []).head? = false := by
      rw [List.append_nil]
      exact between_of_spells spells ends _
    obtain ⟨t₁, t₂, rfl, first, behind⟩ := h.split names between
    rw [List.append_nil] at first
    obtain ⟨ms, replaced, lexes⟩ := exists_lexes_of_spells names numbers hx spells commas exponents
      first
    rw [List.append_cons] at apart
    have front' : Lexes (x ++ sp) (front ++ [l]) := hx.append spells.lexes apart.left_of_append
    rw [← List.append_assoc] at commas exponents
    rw [← lastOr_append] at behind
    obtain ⟨ms', replaced', lexes'⟩ := ih front' apart commas exponents behind
    exact ⟨ms ++ ms', .cons replaced replaced', fun chain =>
      lexes.append (lexes' chain.right_of_append) chain⟩

end Walk

/-! ## 6. Calls -/

/-- **The arguments of calls survive inlining.**  A text that parses still does with numbers inlined,
and every call has as many arguments as it had, as long as no comma between arguments looks like a
decimal comma and no exponent like the name of a variable. -/
theorem parsed_inlineLiterals_of_numbers {data : List (Text × Datum)} {s : Text} {e : Expr}
    (read : parsed s = .ok e) (commas : ArgumentCommas s) (exponents : NumbersApart data s)
    (names : ∀ entry ∈ data, IsName entry.1)
    (numbers : ∀ entry ∈ data, ∃ x, entry.2 = .number x ∧ x.isFinite = true)
    (free : ∀ call ∈ e.calls, data.lookup call.1 = none) :
    ∃ e', parsed (inlineLiterals (dataLiterals data) s) = .ok e' ∧ e'.arities = e.arities := by
  obtain ⟨f, wf, rfl, lexes⟩ := parsed_eq_ok_iff.mp read
  have free' : ∀ call ∈ f.calls, data.lookup call.1 = none := fun call mem =>
    free (callExprs call) (f.calls_expr ▸ List.mem_map_of_mem mem)
  obtain ⟨ms, replaced, lexes'⟩ := exists_lexes_of_inlines names numbers .nil lexes f.phrase.apart
    commas exponents (inlines_inlineLiterals names s)
  obtain ⟨f', wf', -, rfl, same⟩ := f.exists_replaced wf free' ms replaced
  exact ⟨f'.expr, parsed_eq_ok_iff.mpr ⟨f', wf', rfl, lexes' f'.phrase.apart⟩, same⟩

/-- A name that ends in a digit is an argument of its own where a blank stands behind the comma. -/
theorem parsed_inlineLiterals_of_max :
    ∃ e', parsed (inlineLiterals (dataLiterals [("P2".toList, .number (-5))])
      "max(P2, 3)".toList) = .ok e' ∧ e'.arities = [("max".toList, 2)] := by
  let f : Form :=
    .call "max".toList (.more (.name "P2".toList) .comma (.last (.number 3)))
  have word {c : Char} {cs : Text} (start : isNameStart c = true) (digit : isDigitLike c = false)
      (inside : ∀ d ∈ cs, isNameChar d = true) : Lexes (c :: cs) [.name (c :: cs)] := by
    have spells : Spells (c :: cs) (.name (c :: cs)) [] := .name start digit inside rfl
    exact spells.lexes
  have number : Lexes [' ', '3'] [.number 3] := by
    have spells : Spells ['3'] (.number 3) [] := .number rfl rfl (by decide +kernel)
    exact .blank (by decide) spells.lexes
  have lexes : Lexes "max(P2, 3)".toList f.lexemes := by
    have parts : List.Forall₂ Lexes ["max".toList, ['('], "P2".toList, [','], " 3".toList, [')']]
        (f.lexemes.map fun l => [l]) :=
      .cons (word (by decide) (by decide) (by decide)) (.cons (Lexer.lexes_symbol rfl)
        (.cons (word (by decide) (by decide) (by decide)) (.cons (Lexer.lexes_symbol rfl)
          (.cons number (.cons (Lexer.lexes_symbol rfl) .nil)))))
    exact Lexes.flatten parts f.phrase.apart
  have read : parsed "max(P2, 3)".toList = .ok f.expr :=
    parsed_eq_ok_iff.mpr ⟨f, ⟨trivial, trivial⟩, rfl, lexes⟩
  refine parsed_inlineLiterals_of_numbers read ?_ ?_ ?_ ?_ (by decide)
  · rintro x y whole - ⟨-, digit⟩
    have next : ∀ k < 10, "max(P2, 3)".toList[k]? = some ',' →
        "max(P2, 3)".toList[k + 1]? = some ' ' := by decide
    have length := congrArg List.length whole
    have blank := next x.length (by simp at length; omega) (by rw [whole]; simp)
    rw [whole, List.getElem?_append_right (Nat.le_add_right _ 1), Nat.add_sub_cancel_left,
      List.getElem?_cons_succ, ← List.head?_eq_getElem?] at blank
    rw [blank] at digit
    exact absurd digit (by decide)
  · intro x p n q y v _ _ spells _ _
    rw [List.lookup_cons]
    by_cases same : n = "P2".toList
    · subst same
      exact absurd (spells.mem_number (c := 'P') (by simp)) (by decide)
    · rw [beq_eq_false_iff_ne.mpr same]
      rfl
  · intro entry mem
    obtain rfl := List.mem_singleton.mp mem
    exact ⟨'P', ['2'], rfl, by decide, by decide⟩
  · intro entry mem
    obtain rfl := List.mem_singleton.mp mem
    exact ⟨-5, rfl, by decide +kernel⟩

end Haulage
