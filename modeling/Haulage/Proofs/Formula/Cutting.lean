/-
# Where a text is cut

Cut at any place, a text that is cut into lexemes falls apart between two of them or inside a
spelling (`Lexes.cut`).  There is one way to read what a text starts with (`Spells.unique`), so the
lexemes of a text that begins with another one begin with its lexemes, unless the last of them can be
prolonged (`Lexes.of_append`).

Inside a text literal it does not matter what stands there, as long as it holds no quote and no
backslash (`ClosesBefore.exchange`, `Spells.exists_exchanged`).
-/
import Haulage.Proofs.Formula.Lexing

namespace Haulage

namespace Lexer

/-! ## 1. One way to read a text -/

theorem Spells.unique {sp sp' rest rest' : Text} {l l' : Lexeme} (h : Spells sp l rest)
    (h' : Spells sp' l' rest') (same : sp ++ rest = sp' ++ rest') :
    sp = sp' ∧ l = l' ∧ rest = rest' := by
  obtain ⟨c, cs, rfl⟩ := List.exists_cons_of_ne_nil h.ne_nil
  obtain ⟨c', cs', rfl⟩ := List.exists_cons_of_ne_nil h'.ne_nil
  obtain ⟨rfl, behind⟩ := List.cons.inj same
  have read := h.readToken 0
  rw [show cs ++ rest = cs' ++ rest' from behind, h'.readToken 0, Except.ok.injEq,
    Spelled.mk.injEq] at read
  exact ⟨read.2.1.symm, read.1.symm, read.2.2.symm⟩

/-- What a text starts with is its first lexeme. -/
theorem Spells.of_lexes {sp rest : Text} {l : Lexeme} {ls : List Lexeme} (h : Spells sp l rest)
    (lexes : Lexes (sp ++ rest) ls) : ∃ back, ls = l :: back ∧ Lexes rest back := by
  generalize whole : sp ++ rest = s at lexes
  cases lexes with
  | nil => exact absurd (List.append_eq_nil_iff.mp whole).1 h.ne_nil
  | blank blank more =>
    obtain ⟨c, cs, rfl⟩ := List.exists_cons_of_ne_nil h.ne_nil
    obtain ⟨rfl, -⟩ := List.cons.inj whole
    exact absurd h.isBlank (by simp [blank])
  | token spells more =>
    obtain ⟨rfl, rfl, rfl⟩ := h.unique spells whole
    exact ⟨_, rfl, more⟩

/-- What may follow a lexeme is settled by the first character. -/
theorem Ends.append {l : Lexeme} {x : Text} (h : Ends l x) (nonempty : x ≠ []) (y : Text) :
    Ends l (x ++ y) := by
  obtain ⟨c, x, rfl⟩ := List.exists_cons_of_ne_nil nonempty
  cases l <;> exact h

/-- **The lexemes of a text begin with those of the text in front**, if nothing behind prolongs the
last of them. -/
theorem Lexes.of_append {x y : Text} {front ls : List Lexeme} (hx : Lexes x front)
    (apart : front.IsChain Apart) (ends : ∀ l ∈ front.getLast?, Ends l y)
    (h : Lexes (x ++ y) ls) : ∃ back, ls = front ++ back ∧ Lexes y back := by
  induction hx generalizing ls with
  | nil => exact ⟨ls, rfl, h⟩
  | blank blank _ ih => exact ih apart ends ((lexes_cons_of_isBlank blank).mp h)
  | @token sp rest l front spells more ih =>
    have spells : Spells sp l (rest ++ y) := by
      have alone : Spells sp l ([] ++ rest) := spells
      refine alone.truncate.extend ?_
      by_cases empty : rest = []
      · subst empty
        obtain rfl := more.eq_nil
        exact ends l rfl
      · exact (more.ends fun l' hl' => List.IsChain.rel_head? apart hl').append empty y
    rw [List.append_assoc] at h
    obtain ⟨back, rfl, hback⟩ := spells.of_lexes h
    obtain ⟨back, rfl, hy⟩ := ih (List.IsChain.of_cons apart) (fun l' hl' => ends l' (by
      cases front with
      | nil => cases hl'
      | cons => exact hl')) hback
    exact ⟨back, rfl, hy⟩

/-- What starts like a number is one. -/
theorem Spells.exists_number {c : Char} {cs rest : Text} {l : Lexeme} (h : Spells (c :: cs) l rest)
    (starts : startsNumber c (cs ++ rest) = true) : ∃ x, l = .number x := by
  cases h with
  | number => exact ⟨_, rfl⟩
  | name start digit =>
    rw [startsNumber_of_isNameStart start, digit] at starts
    cases starts
  | text => cases starts
  | pair pair =>
    obtain ⟨-, -, none⟩ := starts_of_mem_symbolChars (mem_symbolChars_of_ofPair? pair).1 _
    exact absurd starts (Bool.eq_false_iff.mp none)
  | single single =>
    obtain ⟨-, -, none⟩ := starts_of_mem_symbolChars (mem_symbolChars_of_ofChar? single) _
    exact absurd starts (Bool.eq_false_iff.mp none)

/-! ## 2. Spellings in two parts -/

theorem Spells.text_cases {c : Char} {cs rest s : Text} (h : Spells (c :: cs) (.text s) rest) :
    c = '"' ∧ readQuoted? (cs ++ rest) = some (s, rest) := by
  cases h with
  | text read => exact ⟨rfl, read⟩

/-- A name begins with a name. -/
theorem Spells.name_cases {p q n rest : Text} (h : Spells (p ++ q) (.name n) rest) (begun : p ≠ []) :
    n = p ++ q ∧ Spells p (.name p) [] ∧ (∀ c ∈ q, isNameChar c = true) ∧
      rest.head?.any isNameChar = false := by
  obtain ⟨c, cs, rfl⟩ := List.exists_cons_of_ne_nil begun
  generalize whole : c :: cs ++ q = sp at h ⊢
  cases h with
  | name start digit inside stop =>
    obtain ⟨rfl, rfl⟩ := List.cons.inj whole
    obtain ⟨insideFront, insideBack⟩ := List.forall_mem_append.mp inside
    exact ⟨rfl, .name start digit insideFront rfl, insideBack, stop⟩

/-- The second character of a symbol is an equals sign. -/
theorem Spells.symbol_cases {p q rest : Text} {s : Symbol} (h : Spells (p ++ q) (.symbol s) rest)
    (begun : p ≠ []) (more : q ≠ []) : q = ['='] := by
  obtain ⟨c, cs, rfl⟩ := List.exists_cons_of_ne_nil begun
  obtain ⟨d, ds, rfl⟩ := List.exists_cons_of_ne_nil more
  generalize whole : c :: cs ++ d :: ds = sp at h
  cases h with
  | pair pair =>
    obtain ⟨-, rfl⟩ := mem_symbolChars_of_ofPair? pair
    have two := congrArg List.length whole
    simp only [List.length_append, List.length_cons, List.length_nil] at two
    obtain rfl : cs = [] := List.length_eq_zero_iff.mp (by omega)
    exact (List.cons.inj whole).2
  | single =>
    have one := congrArg List.length whole
    simp only [List.length_append, List.length_cons, List.length_nil] at one
    omega

theorem Apart.name_congr {l : Lexeme} {n : Text} (h : Apart l (.name n)) (m : Text) :
    Apart l (.name m) := by
  cases l with
  | symbol s => cases s <;> first | trivial | exact nofun
  | _ => exact h

/-! ## 3. Cutting at any place -/

/-- **A place of a text** lies between two of its lexemes, or inside the spelling of one. -/
theorem Lexes.cut {x y : Text} {ls : List Lexeme} (h : Lexes (x ++ y) ls) :
    (∃ front back, ls = front ++ back ∧ Lexes x front ∧ Lexes y back) ∨
    ∃ x' p q y' front l back, x = x' ++ p ∧ y = q ++ y' ∧ p ≠ [] ∧ q ≠ [] ∧
      ls = front ++ l :: back ∧ Lexes x' front ∧ Spells (p ++ q) l y' ∧ Lexes y' back := by
  generalize whole : x ++ y = s at h
  induction h generalizing x with
  | nil =>
    obtain ⟨rfl, rfl⟩ := List.append_eq_nil_iff.mp whole
    exact .inl ⟨[], [], rfl, .nil, .nil⟩
  | @blank c cs ls blank more ih =>
    cases x with
    | nil =>
      obtain rfl : y = c :: cs := whole
      exact .inl ⟨[], ls, rfl, .nil, .blank blank more⟩
    | cons d x =>
      obtain ⟨rfl, inner⟩ : d = c ∧ x ++ y = cs := by simpa using whole
      rcases ih inner with ⟨front, back, rfl, hx, hy⟩ |
        ⟨x', p, q, y', front, l, back, rfl, rfl, hp, hq, rfl, hx, spells, hy⟩
      · exact .inl ⟨front, back, rfl, .blank blank hx, hy⟩
      · exact .inr ⟨d :: x', p, q, y', front, l, back, rfl, rfl, hp, hq, rfl, .blank blank hx,
          spells, hy⟩
  | @token sp rest l ls spells more ih =>
    rcases List.append_eq_append_iff.mp whole with ⟨a, rfl, rfl⟩ | ⟨a, rfl, inner⟩
    · -- the place is in the spelling, or right at one of its ends
      by_cases hp : x = []
      · subst hp
        exact .inl ⟨[], l :: ls, rfl, .nil, .token spells more⟩
      by_cases hq : a = []
      · subst hq
        rw [List.append_nil] at spells
        exact .inl ⟨[l], ls, rfl, spells.lexes, more⟩
      exact .inr ⟨[], x, a, rest, [], l, ls, rfl, rfl, hp, hq, rfl, .nil, spells, more⟩
    · subst inner
      rcases ih rfl with ⟨front, back, rfl, hx, hy⟩ |
        ⟨x', p, q, y', front, l', back, rfl, rfl, hp, hq, rfl, hx, spells', hy⟩
      · exact .inl ⟨l :: front, back, rfl, .token spells.truncate hx, hy⟩
      · rw [List.append_assoc] at spells
        exact .inr ⟨sp ++ x', p, q, y', l :: front, l', back, by rw [List.append_assoc], rfl, hp,
          hq, rfl, .token spells.truncate hx, spells', hy⟩

/-- A symbol of one character is the first lexeme only where it is the first character. -/
theorem Lexes.stripLeft_of_symbol {s : Text} {ls : List Lexeme} {symbol : Symbol} {c : Char}
    (alone : ∀ d, Symbol.ofChar? d = some symbol → d = c)
    (unpaired : ∀ d e, Symbol.ofPair? d e ≠ some symbol) (h : Lexes s ls)
    (first : ls.head? = some (.symbol symbol)) : s.stripLeft.head? = some c := by
  induction h with
  | nil => cases first
  | @blank c cs ls blank _ ih =>
    rw [Text.stripLeft, List.dropWhile_cons_of_pos blank]
    exact ih first
  | token spells _ =>
    obtain rfl := Option.some.inj first
    cases spells with
    | pair pair => exact absurd pair (unpaired _ _)
    | single single =>
      have written := (class_of_mem_symbolChars (mem_symbolChars_of_ofChar? single)).1
      obtain rfl := alone _ single
      rw [Text.stripLeft, List.singleton_append, List.dropWhile_cons_of_neg (by simp [written])]
      rfl

theorem Lexes.stripLeft_of_openParen {s : Text} {ls : List Lexeme} (h : Lexes s ls)
    (first : ls.head? = some (.symbol .openParen)) : s.stripLeft.head? = some '(' := by
  refine h.stripLeft_of_symbol (fun d single => ?_) (fun d e pair => ?_) first
  · unfold Symbol.ofChar? at single
    split at single <;> first | rfl | simp at single
  · unfold Symbol.ofPair? at pair
    split at pair <;> simp at pair

theorem Lexes.stripLeft_of_power {s : Text} {ls : List Lexeme} (h : Lexes s ls)
    (first : ls.head? = some (.symbol (.operator .power))) : s.stripLeft.head? = some '^' := by
  refine h.stripLeft_of_symbol (fun d single => ?_) (fun d e pair => ?_) first
  · unfold Symbol.ofChar? at single
    split at single <;> first | rfl | simp at single
  · unfold Symbol.ofPair? at pair
    split at pair <;> simp at pair

/-! ## 4. Inside of text literals -/

/-- Nothing in the text means anything inside a text literal. -/
def Unquoted (s : Text) : Prop := ∀ c ∈ s, c ≠ '"' ∧ c ≠ '\\'

namespace Unquoted

variable {c : Char} {x y : Text}

theorem single (h : c ≠ '"' ∧ c ≠ '\\') : Unquoted [c] := List.forall_mem_singleton.mpr h

theorem cons (h : c ≠ '"' ∧ c ≠ '\\') (hx : Unquoted x) : Unquoted (c :: x) :=
  List.forall_mem_cons.mpr ⟨h, hx⟩

theorem append (hx : Unquoted x) (hy : Unquoted y) : Unquoted (x ++ y) :=
  List.forall_mem_append.mpr ⟨hx, hy⟩

end Unquoted

theorem readQuoted?_cons {c : Char} (quote : c ≠ '"') (escape : c ≠ '\\') (cs : Text) :
    readQuoted? (c :: cs) = (readQuoted? cs).map fun (s, rest) => (c :: s, rest) :=
  readQuoted?.eq_4 c cs quote fun _ _ h => absurd h escape

theorem readQuoted?_append_unquoted {v : Text} (h : Unquoted v) (w : Text) :
    readQuoted? (v ++ w) = (readQuoted? w).map fun (s, rest) => (v ++ s, rest) := by
  induction v with
  | nil => simp
  | cons c v ih =>
    obtain ⟨quote, escape⟩ := h c (.head _)
    rw [List.cons_append, readQuoted?_cons quote escape, ih fun d hd => h d (.tail _ hd),
      Option.map_map]
    rfl

/-- Does the text go on up to the quote that closes a literal, with the other one behind it? -/
def ClosesBefore (rest x : Text) : Prop := ∃ s, readQuoted? (x ++ rest) = some (s, rest)

namespace ClosesBefore

variable {c : Char} {v w x rest : Text}

theorem quote_iff : ClosesBefore rest ('"' :: x) ↔ x = [] := by
  simp [ClosesBefore, readQuoted?]

/-- Two texts go on up to the quote together, if one is read by way of the other. -/
theorem iff_of_map {f : Text → Text}
    (h : readQuoted? (w ++ rest) = (readQuoted? (x ++ rest)).map fun (s, r) => (f s, r)) :
    ClosesBefore rest w ↔ ClosesBefore rest x := by
  rw [ClosesBefore, h]
  constructor
  · rintro ⟨s, read⟩
    obtain ⟨⟨s, _⟩, read, same⟩ := Option.map_eq_some_iff.mp read
    cases same
    exact ⟨s, read⟩
  · rintro ⟨s, read⟩
    exact ⟨f s, Option.map_eq_some_iff.mpr ⟨_, read, rfl⟩⟩

/-- A backslash takes the next character. -/
theorem escape_iff : ClosesBefore rest ('\\' :: c :: x) ↔ ClosesBefore rest x :=
  iff_of_map (f := (c :: ·)) rfl

theorem append_iff (h : Unquoted v) : ClosesBefore rest (v ++ x) ↔ ClosesBefore rest x :=
  iff_of_map (f := (v ++ ·)) (by rw [List.append_assoc, readQuoted?_append_unquoted h])

theorem cons_iff (quote : c ≠ '"') (escape : c ≠ '\\') :
    ClosesBefore rest (c :: x) ↔ ClosesBefore rest x :=
  append_iff (v := [c]) (.single ⟨quote, escape⟩)

/-- **The inside of a text literal** may be exchanged. -/
theorem exchange {u v v' w rest : Text} (h : ClosesBefore rest (u ++ (v ++ w))) (hv : Unquoted v)
    (hv' : Unquoted v') (nonempty : v ≠ []) (nonempty' : v' ≠ []) :
    ClosesBefore rest (u ++ (v' ++ w)) := by
  cases u with
  | nil =>
    rw [List.nil_append, append_iff hv] at h
    rwa [List.nil_append, append_iff hv']
  | cons c u =>
    rw [List.cons_append] at h ⊢
    by_cases quote : c = '"'
    · -- the literal would end in front
      subst quote
      simp [quote_iff, nonempty] at h
    by_cases escape : c = '\\'
    · subst escape
      cases u with
      | nil =>
        -- the backslash takes the first character of what is exchanged
        obtain ⟨d, v, rfl⟩ := List.exists_cons_of_ne_nil nonempty
        obtain ⟨d', v', rfl⟩ := List.exists_cons_of_ne_nil nonempty'
        have tail : Unquoted v := fun e mem => hv e (.tail d mem)
        have tail' : Unquoted v' := fun e mem => hv' e (.tail d' mem)
        rw [List.nil_append, List.cons_append, escape_iff, append_iff tail] at h
        rwa [List.nil_append, List.cons_append, escape_iff, append_iff tail']
      | cons d u =>
        rw [List.cons_append, escape_iff] at h ⊢
        exact exchange h hv hv' nonempty nonempty'
    · rw [cons_iff quote escape] at h ⊢
      exact exchange h hv hv' nonempty nonempty'

end ClosesBefore

/-- So a literal stays one where part of it is exchanged, and a part without quotes that begins
inside it ends there too. -/
theorem Spells.exists_exchanged {cs q v v' after rest s : Text}
    (read : readQuoted? (cs ++ q ++ rest) = some (s, rest)) (nonempty : q ≠ [])
    (whole : v ++ after = q ++ rest) (hv : Unquoted v) (hv' : Unquoted v') (some : v ≠ [])
    (some' : v' ≠ []) :
    ∃ q' s', after = q' ++ rest ∧ Spells ('"' :: (cs ++ (v' ++ q'))) (.text s') rest := by
  obtain ⟨q', rfl, rfl⟩ : ∃ q', q = v ++ q' ∧ after = q' ++ rest := by
    rcases List.append_eq_append_iff.mp whole with ⟨q', same, same'⟩ | ⟨more, rfl, -⟩
    · exact ⟨q', same, same'⟩
    · -- the part would hold the closing quote
      have last := getLast?_of_readQuoted? read
      rw [List.getLast?_append_of_ne_nil _ nonempty] at last
      exact absurd rfl (hv '"' (List.mem_append_left _ (List.mem_of_getLast? last))).1
  have closes : ClosesBefore rest (cs ++ (v ++ q')) := ⟨s, read⟩
  obtain ⟨s', read'⟩ := closes.exchange hv hv' some some'
  exact ⟨q', s', rfl, .text (by simpa using read')⟩

end Lexer

end Haulage
