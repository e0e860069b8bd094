/-
# Fields of a request

A **reader** turns a value of a request into what the engine works with, or says why it cannot: with
messages, or, for a list or a mapping, with what is wrong in its parts. Fields are **checked**
together, so that a request at fault in several of them hears of all.
-/
import Haulage.Value.Items
import Haulage.Value.Display
import Haulage.Text.Word
import Haulage.Shorthand.Call

namespace Haulage

/-- What is wrong with a value of a request. -/
inductive Rejection
  | messages (wordings : List String)
  | parts (entries : List (Text × Rejection))

namespace Rejection

mutual

/-- The rejection as a value. -/
def toValue : Rejection → Value
  | messages wordings => .list (wordings.map .ofString)
  | parts entries => .mapping (toEntries entries)

/-- The rejections of parts as entries. -/
def toEntries : List (Text × Rejection) → List (Text × Value)
  | [] => []
  | (key, r) :: rest => (key, r.toValue) :: toEntries rest

end

/-- A rejection with one message. -/
def message (wording : String) : Rejection := messages [wording]

/-- A rejection of a whole mapping or list. -/
def whole (wording : String) : Rejection := parts [("non_field_errors".toList, message wording)]

end Rejection

/-- What reads a value of a request. -/
abbrev Reader (α : Type) := Value → Except Rejection α

/-! ## 1. Presence -/

/-- A value that must be there is missing. -/
def missingField : Rejection := .message "This field is required."

/-- A value is null where it may not be. -/
def nullField : Rejection := .message "This field may not be null."

namespace Reader

variable {α : Type}

/-- The reader that refuses null. -/
def notNull (read : Reader α) : Reader α
  | .null => .error nullField
  | v => read v

/-- The reader that passes null through. -/
def nullable (read : Reader α) : Reader (Option α)
  | .null => .ok none
  | v => (read v).map some

/-- The reader followed by a further check. -/
def checked (read : Reader α) (check : α → Except Rejection α) : Reader α :=
  fun v => read v >>= check

/-! ## 2. Kinds of fields -/

/-- A check of a text: the message on one that fails it. -/
abbrev TextCheck := Text → Option String

/-- A text must not hold the null character. -/
def withoutNull : TextCheck := fun s =>
  if s.contains '\x00' then some "Null characters are not allowed." else none

/-- Is the text the name of a variable? -/
def isIdentifier : Text → Bool
  | [] => false
  | c :: cs => startsIdentifier c && cs.all isNameChar

/-- A text must be the name of a variable. -/
def matchingName : TextCheck := fun s =>
  if isIdentifier s then none else some "This value does not match the required pattern."

/-- The text of a value without the blanks around it. Numbers are written out. -/
def writtenText? (v : Value) : Option Text :=
  match v with
  | .text s => some s.strip
  | .int _ | .float _ => v.written.toOption
  | _ => none

/-- Reads a text; all checks that it fails are reported. -/
def textWith (allowBlank : Bool) (checks : List TextCheck) : Reader Text := notNull fun v =>
  match writtenText? v with
  | none => .error (.message "Not a valid string.")
  | some [] => if allowBlank then .ok [] else .error (.message "This field may not be blank.")
  | some s =>
    match checks.filterMap (· s) with
    | [] => .ok s
    | wordings => .error (.messages wordings)

/-- Reads a text. -/
def text (allowBlank : Bool) : Reader Text := textWith allowBlank [withoutNull]

/-- Reads the name of a variable. -/
def identifier : Reader Text := textWith false [withoutNull, matchingName]

/-- The most characters of a text that is read as a number. -/
def mostNumberCharacters : Nat := 1000

/-- The float that a value says, or the message on why it says none. -/
def floatOf (v : Value) : Except String Float :=
  let invalid := "A valid number is required."
  match v with
  | .text s =>
    if mostNumberCharacters < s.length then .error "String value too large."
    else match readFloat? s with
      | some x => .ok x
      | none => .error invalid
  | v =>
    match v.number? with
    | none => .error invalid
    | some n =>
      match n.toFloat? with
      | some x => .ok x
      | none => .error "Integer value too large to convert to float"

/-- Reads a number, which must be finite. -/
def number : Reader Float := notNull fun v =>
  match floatOf v with
  | .ok x => if x.isFinite then .ok x else .error (.message "A valid number is required.")
  | .error wording => .error (.message wording)

/-- Reads one of a few words. -/
def choice (words : List String) (ofWord : Text → α) : Reader α := notNull fun v =>
  match v.written with
  | .error f => .error (.message f.message)
  | .ok s =>
    if words.any fun word => word.toList == s then .ok (ofWord s)
    else
      let shown := String.ofList s
      .error (.message s!"\"{shown}\" is not a valid choice.")

/-- What is wrong with a value that is no list. -/
def notList (v : Value) : String :=
  s!"Expected a list of items but got type \"{v.kind.shortName}\"."

/-- Reads the items of a list. Those at fault are listed by their place. -/
def items (read : Reader α) (index : Nat) : List Value → Except (List (Text × Rejection)) (List α)
  | [] => .ok []
  | v :: vs =>
    match read v, items read (index + 1) vs with
    | .ok x, .ok xs => .ok (x :: xs)
    | .ok _, .error rs => .error rs
    | .error r, .ok _ => .error [(digitsOf index, r)]
    | .error r, .error rs => .error ((digitsOf index, r) :: rs)

/-- Reads a list; `refuse` rejects what is none. -/
def list (refuse : String → Rejection) (read : Reader α) : Reader (List α) := notNull fun
  | .list vs => (items read 0 vs).mapError .parts
  | v => .error (refuse (notList v))

/-- Reads a mapping. -/
def mapping : Reader (List (Text × Value)) := notNull fun
  | .mapping entries => .ok entries
  | v => .error (.message s!"Expected a dictionary of items but got type \"{v.kind.shortName}\".")

/-- Reads a moment and turns it into universal time. -/
def moment : Reader Moment := notNull fun v =>
  match v with
  | .text s =>
    match readMoment? s with
    | some m =>
      match m.toUniversal? with
      | some m => .ok m
      | none => .error (.message "Datetime value out of range.")
    | none => .error (.message malformed)
  | _ => .error (.message malformed)
where
  /-- The message on what is no moment. -/
  malformed : String :=
    "Datetime has wrong format. Use one of these formats instead: " ++
      "YYYY-MM-DDThh:mm[:ss[.uuuuuu]][+HH:MM|-HH:MM|Z]."

end Reader

/-! ## 3. Fields together -/

/-- What fields come to, or what is wrong with each that is at fault. -/
abbrev Checked (α : Type) := Except (List (Text × Rejection)) α

namespace Checked

variable {α β : Type}

/-- Two results together; what is wrong with both is kept. -/
def and (a : Checked α) (b : Checked β) : Checked (α × β) :=
  match a, b with
  | .ok x, .ok y => .ok (x, y)
  | .error r, .ok _ => .error r
  | .ok _, .error s => .error s
  | .error r, .error s => .error (r ++ s)

/-- The field under a key; `absent` is what a missing one comes to. -/
def field (key : String) (absent : Except Rejection α) (read : Reader α)
    (entries : List (Text × Value)) : Checked α :=
  (match entries.lookup key.toList with
    | some v => read v
    | none => absent).mapError fun r => [(key.toList, r)]

end Checked

/-- Reads an object with fields. -/
def Reader.object {α : Type} (fields : List (Text × Value) → Checked α) : Reader α
  | .mapping entries => (fields entries).mapError .parts
  | v => .error (.whole s!"Invalid data. Expected a dictionary, but got {v.kind.shortName}.")

end Haulage
