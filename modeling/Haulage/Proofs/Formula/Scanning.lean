/-
# What the lexer keeps of a formula

A text that the lexer reads is laid out as its tokens, with only blanks around them.  What a token is
spelled with was said so far in the lexer's own terms, for these say where a token ends.  Here it is
said without them (`Writes`): a symbol is written as it is spelled, a name as itself, a number as a text
that reads as it, and a text literal as what stands for it between two quotes (`Stands`).

The two answers of the lexer are told apart in the same way.  A text that it rejects has no layout at
all, and the fault says where the layout breaks off: everything in front of that place is laid out, and
no token begins there (`NoToken`).  Both together are `scan_lossless`.
-/
import Haulage.Proofs.Formula.Layout

namespace Haulage

namespace Lexer

/-! ## 1. What tokens are written as -/

/-- Does the text stand between quotes for what is said?  A backslash is not said, but the character
behind it is, whatever it is. -/
inductive Stands : Text → Text → Prop
  | nil : Stands [] []
  | escaped {c : Char} {body said : Text} (more : Stands body said) :
      Stands ('\\' :: c :: body) (c :: said)
  | plain {c : Char} {body said : Text} (quote : c ≠ '"') (backslash : c ≠ '\\')
      (more : Stands body said) : Stands (c :: body) (c :: said)

/-- What stands in front of a closing quote is read as what it stands for. -/
theorem Stands.readQuoted? {body said : Text} (h : Stands body said) (rest : Text) :
    readQuoted? (body ++ '"' :: rest) = some (said, rest) := by
  induction h with
  | nil => rfl
  | escaped _ ih =>
    rw [List.cons_append, List.cons_append, Lexer.readQuoted?, ih]
    rfl
  | plain quote backslash _ ih =>
    rw [List.cons_append, readQuoted?.eq_4 _ _ quote fun _ _ h => absurd h backslash, ih]
    rfl

/-- **A text between quotes is found** exactly if a closing quote follows what stands for it. -/
theorem readQuoted?_eq_some_iff {w said rest : Text} :
    readQuoted? w = some (said, rest) ↔ ∃ body, w = body ++ '"' :: rest ∧ Stands body said := by
  constructor
  · intro h
    fun_induction readQuoted? w generalizing said rest with
    | case1 => cases h
    | case2 cs =>
      cases h
      exact ⟨[], rfl, .nil⟩
    | case3 c cs ih =>
      obtain ⟨⟨said', rest'⟩, read, whole⟩ := Option.map_eq_some_iff.mp h
      cases whole
      obtain ⟨body, rfl, stands⟩ := ih read
      exact ⟨'\\' :: c :: body, rfl, .escaped stands⟩
    | case4 c cs quote escape ih =>
      obtain ⟨⟨said', rest'⟩, read, whole⟩ := Option.map_eq_some_iff.mp h
      cases whole
      obtain ⟨body, rfl, stands⟩ := ih read
      refine ⟨c :: body, rfl, .plain quote ?_ stands⟩
      -- a backslash that takes nothing with it would stand at the end of the text
      rintro rfl
      cases body with
      | nil => exact escape _ _ rfl rfl
      | cons d body => exact escape _ _ rfl rfl
  · rintro ⟨body, rfl, stands⟩
    exact stands.readQuoted? rest

/-- Is the lexeme written like that? -/
inductive Writes : Text → Lexeme → Prop
  | number {sp : Text} {x : Float} (reads : readFloat? sp = some x) : Writes sp (.number x)
  | name (n : Text) : Writes n (.name n)
  | text {body said : Text} (stands : Stands body said) : Writes ('"' :: (body ++ ['"'])) (.text said)
  | symbol (s : Symbol) : Writes s.spelling.toList (.symbol s)

theorem spelling_of_ofPair? {c d : Char} {s : Symbol} (h : Symbol.ofPair? c d = some s) :
    s.spelling.toList = [c, d] := by
  unfold Symbol.ofPair? at h
  split at h
  · cases h; rfl
  · cases h; rfl
  · cases h; rfl
  · cases h; rfl
  · cases h

theorem spelling_of_ofChar? {c : Char} {s : Symbol} (h : Symbol.ofChar? c = some s) :
    s.spelling.toList = [c] := by
  unfold Symbol.ofChar? at h
  split at h <;> cases h <;> rfl

/-- What spells a lexeme writes it, whatever comes behind it. -/
theorem Spells.writes {sp rest : Text} {l : Lexeme} (h : Spells sp l rest) : Writes sp l := by
  cases h with
  | number _ _ read => exact .number read
  | name => exact .name _
  | @text cs _ _ read =>
    obtain ⟨body, whole, stands⟩ := readQuoted?_eq_some_iff.mp read
    obtain rfl : cs = body ++ ['"'] := List.append_cancel_right (by simpa using whole)
    exact .text stands
  | pair pair => exact spelling_of_ofPair? pair ▸ .symbol _
  | single single => exact spelling_of_ofChar? single ▸ .symbol _

/-! ## 2. The places of the tokens -/

theorem LaidOut.writes {place : Nat} {s : Text} {ts : List (Token × Text)} (h : LaidOut place s ts) :
    ∀ t ∈ ts, Writes t.2 t.1.lexeme := by
  induction h with
  | nil => exact List.forall_mem_nil _
  | blank _ _ ih => exact ih
  | token spells _ ih => exact List.forall_mem_cons.mpr ⟨spells.writes, ih⟩

/-- The places of the tokens, and the place where the text ends. -/
def marks (tokens : List Token) (finish : Nat) : List Nat :=
  tokens.map Token.position ++ [finish]

/-- No token begins in front of the text. -/
theorem LaidOut.le_of_mem_marks {place : Nat} {s : Text} {ts : List (Token × Text)}
    (h : LaidOut place s ts) : ∀ mark ∈ marks (ts.map Prod.fst) (place + s.length), place ≤ mark := by
  induction h with
  | nil => simp [marks]
  | @blank place c cs ts _ _ ih =>
    intro mark mem
    have := ih mark (by rwa [List.length_cons, Nat.add_comm cs.length, ← Nat.add_assoc] at mem)
    omega
  | @token place sp rest l ts _ _ ih =>
    intro mark mem
    rcases List.mem_cons.mp mem with rfl | mem
    · exact le_rfl
    · have := ih mark (by rwa [List.length_append, ← Nat.add_assoc] at mem)
      omega

/-- **Every token begins behind the one before it**, and the end is behind all of them. -/
theorem LaidOut.pairwise_marks {place : Nat} {s : Text} {ts : List (Token × Text)}
    (h : LaidOut place s ts) : (marks (ts.map Prod.fst) (place + s.length)).Pairwise (· < ·) := by
  induction h with
  | nil => simp [marks]
  | @blank place c cs ts _ _ ih =>
    rwa [List.length_cons, Nat.add_comm cs.length, ← Nat.add_assoc]
  | @token place sp rest l ts spells more ih =>
    have nonempty : 0 < sp.length := List.length_pos_iff.mpr spells.ne_nil
    rw [List.length_append, ← Nat.add_assoc]
    refine List.pairwise_cons.mpr ⟨fun mark mem => ?_, ih⟩
    have := more.le_of_mem_marks mark mem
    change place < mark
    omega

/-- The lexer ends where the text does. -/
theorem finish_of_scanFrom {place : Nat} {s : Text} {scanned : Scanned}
    (h : scanFrom place s = .ok scanned) : scanned.finish = place + s.length := by
  fun_induction scanFrom place s generalizing scanned with
  | case1 place =>
    obtain rfl : (⟨[], place⟩ : Scanned) = scanned := by simpa using h
    rfl
  | case2 place c cs blank ih =>
    rw [ih h, List.length_cons]
    omega
  | case3 => cases h
  | case4 => cases h
  | case5 place c cs blank t read scanned' run ih =>
    obtain rfl : _ = scanned := by simpa using h
    have behind := ih run
    rwa [← (readToken_append read).1, List.length_append, ← Nat.add_assoc]

/-! ## 3. Where the layout breaks off -/

/-- At a place where a character stands and a text behind it, does no token begin, as the fault says? -/
inductive NoToken (place : Nat) (c : Char) (cs : Text) : SyntaxFault → Prop
  /-- Digits and points, perhaps with an exponent, that read as no number. -/
  | malformedNumber {literal rest : Text} (starts : isDigitLike c = true ∨ c = '.')
      (whole : literal ++ rest = c :: cs) (unread : readFloat? literal = none) :
      NoToken place c cs (.malformedNumber literal place)
  /-- A quote without a closing one. -/
  | unterminatedText (quote : c = '"')
      (unclosed : ∀ body said rest, Stands body said → cs ≠ body ++ '"' :: rest) :
      NoToken place c cs (.unterminatedText place)
  /-- A character that starts no number, name or text, and no symbol with the next one or alone. -/
  | strayCharacter (number : isDigitLike c = false ∧ (c = '.' → cs.head?.any isDigitLike = false))
      (name : isNameStart c = false) (quote : c ≠ '"') (single : Symbol.ofChar? c = none)
      (pair : ∀ d ∈ cs.head?, Symbol.ofPair? c d = none) :
      NoToken place c cs (.strayCharacter c place)

theorem readSymbol?_eq_none {c : Char} {cs : Text} (h : readSymbol? c cs = none) :
    Symbol.ofChar? c = none ∧ ∀ d ∈ cs.head?, Symbol.ofPair? c d = none := by
  unfold readSymbol? at h
  split at h
  · split at h
    · cases h
    · rename_i none
      refine ⟨Option.map_eq_none_iff.mp h, ?_⟩
      rintro _ ⟨⟩
      exact none
  · exact ⟨Option.map_eq_none_iff.mp h, by simp⟩

/-- Where the lexer finds no token, none begins, for the reason that it gives. -/
theorem noToken_of_readToken {place : Nat} {c : Char} {cs : Text} {fault : SyntaxFault}
    (h : readToken place c cs = .error fault) : NoToken place c cs fault := by
  simp only [readToken] at h
  split at h
  · rename_i starts
    have starts : isDigitLike c = true ∨ c = '.' ∧ cs.head?.any isDigitLike = true := by
      simpa [startsNumber] using starts
    split at h
    · cases h
    · rename_i unread
      cases h
      exact .malformedNumber (starts.imp id And.left) (spanNumber_append _) unread
  · rename_i number
    have number : isDigitLike c = false ∧ (c = '.' → cs.head?.any isDigitLike = false) := by
      simpa [startsNumber] using number
    split at h
    · cases h
    · rename_i name
      split at h
      · rename_i quote
        split at h
        · cases h
        · rename_i unread
          cases h
          refine .unterminatedText (by simpa using quote) fun body said rest stands whole => ?_
          rw [whole, stands.readQuoted?] at unread
          cases unread
      · rename_i quote
        split at h
        · cases h
        · rename_i none
          cases h
          obtain ⟨single, pair⟩ := readSymbol?_eq_none none
          exact .strayCharacter number (by simpa using name) (by simpa using quote) single pair

/-- **Everything in front of a fault is laid out**, and at its place no token begins. -/
theorem exists_noToken_of_scanFrom {place : Nat} {s : Text} {fault : SyntaxFault}
    (h : scanFrom place s = .error fault) :
    ∃ front c cs ts, s = front ++ c :: cs ∧ LaidOut place front ts ∧
      NoToken (place + front.length) c cs fault := by
  fun_induction scanFrom place s with
  | case1 => cases h
  | case2 place c cs blank ih =>
    obtain ⟨front, d, ds, ts, rfl, laid, stops⟩ := ih h
    refine ⟨c :: front, d, ds, ts, rfl, .blank blank laid, ?_⟩
    rwa [List.length_cons, Nat.add_comm front.length, ← Nat.add_assoc]
  | case3 place c cs blank fault' stops =>
    cases h
    exact ⟨[], c, cs, [], rfl, .nil, noToken_of_readToken stops⟩
  | case4 place c cs blank t read fault' run ih =>
    cases h
    obtain ⟨l, sp, rest, rfl, rfl, spells⟩ := exists_spells_of_readToken read
    obtain ⟨front, d, ds, ts, rfl, laid, stops⟩ := ih run
    refine ⟨c :: sp ++ front, d, ds, _, by simp, .token spells.truncate laid, ?_⟩
    rwa [List.length_append, ← Nat.add_assoc]
  | case5 => cases h

/-- What the lexer rejects has no layout. -/
theorem LaidOut.not_of_scanFrom {place : Nat} {s : Text} {fault : SyntaxFault}
    (h : scanFrom place s = .error fault) (ts : List (Token × Text)) : ¬ LaidOut place s ts := by
  intro laid
  obtain ⟨scanned, accepted, -⟩ := laid.lexes.scanFrom place
  rw [h] at accepted
  cases accepted

/-! ## 4. Nothing is lost -/

/-- **The lexer loses nothing.**  Either it reads the text, and then the text is its tokens, each at its
place and written as what it is, with only blanks in front of them, between them and behind them; every
token begins behind the one before it, and the end is the length of the text.  Or it reports a fault,
and then the text is not made of tokens at all: what is in front of the fault is, and there the next
token is missing. -/
theorem scan_lossless (s : Text) :
    (∃ scanned ts, scan s = .ok scanned ∧ ts.map Prod.fst = scanned.tokens ∧ LaidOut 0 s ts ∧
      (∀ t ∈ ts, Writes t.2 t.1.lexeme) ∧
      (marks scanned.tokens scanned.finish).Pairwise (· < ·) ∧
      scanned.finish = s.length) ∨
    (∃ fault front c cs ts, scan s = .error fault ∧ (∀ ts, ¬ LaidOut 0 s ts) ∧
      s = front ++ c :: cs ∧ LaidOut 0 front ts ∧ NoToken front.length c cs fault) := by
  cases run : scan s with
  | ok scanned =>
    obtain ⟨ts, laid, tokens⟩ := exists_laidOut_of_scanFrom run
    have finish : scanned.finish = s.length := by simpa using finish_of_scanFrom run
    refine .inl ⟨scanned, ts, rfl, tokens, laid, laid.writes, ?_, finish⟩
    have increasing := laid.pairwise_marks
    rwa [Nat.zero_add, ← finish, tokens] at increasing
  | error fault =>
    obtain ⟨front, c, cs, ts, whole, laid, stops⟩ := exists_noToken_of_scanFrom run
    rw [Nat.zero_add] at stops
    exact .inr ⟨fault, front, c, cs, ts, rfl, LaidOut.not_of_scanFrom run, whole, laid, stops⟩

end Lexer

end Haulage
