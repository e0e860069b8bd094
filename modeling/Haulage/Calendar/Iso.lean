/-
# Dates and moments as text

`Date.isoText` and `Moment.isoText` write the usual form `2024-06-04T12:00:00+02:00`, fractions and
distance only where there are any.

Reading is more liberal. `readIso?` takes a date as `2024-06-04`, `20240604` or by its week as
`2024-W23-2`, then any one character, then a time of which minutes, seconds and fraction may be
missing and whose colons may be left out, then `Z` or a distance. `readLoose?` takes months, days,
hours, minutes and seconds of one digit too.
-/
import Haulage.Calendar.Moment
import Haulage.Number.Notation
import Haulage.Number.Reader
import Haulage.Text.Numeral
import Haulage.Text.Blank

namespace Haulage

/-- A natural with at least so many digits. -/
def padded (width n : Nat) : Text :=
  let digits := digitsOf n
  List.replicate (width - digits.length) '0' ++ digits

/-- The year, month and day with hyphens between them. -/
def Date.isoText (d : Date) : Text :=
  padded 4 d.year ++ '-' :: padded 2 d.month ++ '-' :: padded 2 d.day

/-- The microseconds after the seconds, if there are any. -/
def fractionText (microsecond : Nat) : Text :=
  if microsecond = 0 then [] else '.' :: padded 6 microsecond

/-- The hour, minute and second with colons between them, and the fraction. -/
def TimeOfDay.isoText (t : TimeOfDay) : Text :=
  padded 2 t.hour ++ ':' :: padded 2 t.minute ++ ':' :: padded 2 t.second ++
    fractionText t.microsecond

/-- The sign, hours and minutes of a distance, and its seconds if there are any. -/
def Offset.isoText (o : Offset) : Text :=
  let t := TimeOfDay.ofMicros o.micros.natAbs
  (if o.micros < 0 then '-' else '+') :: padded 2 t.hour ++ ':' :: padded 2 t.minute ++
    (if t.second = 0 ∧ t.microsecond = 0 then []
     else ':' :: padded 2 t.second ++ fractionText t.microsecond)

/-- The date, a `T`, the time and the distance. -/
def Moment.isoText (m : Moment) : Text :=
  m.date.isoText ++ 'T' :: m.time.isoText ++ ((m.offset.map (·.isoText)).getD [])

namespace Iso

/-- Exactly so many ASCII digits at the start of a text: their value and what follows. -/
def digits? : (count : Nat) → Text → Option (Nat × Text)
  | count, s =>
    let ds := s.take count
    if ds.length = count ∧ ds.all Char.isDigit then
      some (ds.foldl (fun n c => 10 * n + (c.toNat - 48)) 0, s.drop count)
    else none

/-- A hyphen at the start of a text, taken off if one is wanted. -/
def hyphen? (wanted : Bool) : Text → Option Text
  | '-' :: s => if wanted then some s else some ('-' :: s)
  | s => if wanted then none else some s

/-- The ordinal of the Monday of the first week of a year: the week that holds its first
Thursday. -/
def firstMonday (year : Nat) : Nat :=
  let first := daysBeforeYear year + 1
  let weekday := (first + 6) % 7
  let monday := first - weekday
  if 3 < weekday then monday + 7 else monday

/-- Has the year 53 weeks? It has if it starts on a Thursday, or on a Wednesday and is a leap
year. -/
def hasLongWeeks (year : Nat) : Bool :=
  let weekday := (daysBeforeYear year + 1) % 7
  weekday == 4 || (weekday == 3 && isLeapYear year)

/-- The date of a weekday, from 1 for Monday, in a week of a year. -/
def ofWeek? (year week day : Nat) : Option Date :=
  if 1 ≤ year ∧ year ≤ 9999 ∧ 1 ≤ week ∧ (week ≤ 52 ∨ (week = 53 ∧ hasLongWeeks year)) ∧
      1 ≤ day ∧ day ≤ 7 then
    Date.ofOrdinal? (firstMonday year + (week - 1) * 7 + (day - 1))
  else none

/-- The date that a text of seven, eight or ten characters stands for. -/
def date? (s : Text) : Option Date := do
  let (year, s) ← digits? 4 s
  let hyphens := s.head? == some '-'
  let s ← hyphen? hyphens s
  match s with
  | 'W' :: s =>
    let (week, s) ← digits? 2 s
    match s with
    | [] => ofWeek? year week 1
    | s =>
      let (day, _) ← digits? 1 (← hyphen? hyphens s)
      ofWeek? year week day
  | s =>
    let (month, s) ← digits? 2 s
    let (day, s) ← digits? 2 (← hyphen? hyphens s)
    if s.isEmpty then Date.ofParts? year month day else none

/-- The number of characters that the date takes, told by the fifth character and those around the
place where a date may end. -/
def dateLength? (s : Text) : Option Nat :=
  if s.length = 7 then some 7
  else if s.length < 7 then none
  else match s.drop 4 with
    | '-' :: 'W' :: _ =>
      if s[8]? = some '-' then
        if s.length = 9 then none
        else if (s[10]?.any Char.isDigit) then some 8
        else some 10
      else some 8
    | '-' :: _ => some 10
    | 'W' :: _ =>
      let stop := 7 + ((s.drop 7).takeWhile Char.isDigit).length
      if stop < 9 then some stop
      else if stop % 2 = 0 then some 7
      else some 8
    | _ => some 8

/-- The fraction of a second, in microseconds: up to six digits count and the others are passed
over. Is that all of the text? -/
def fraction? (s : Text) : Option (Nat × Bool) :=
  let count := min 6 s.length
  (digits? count s).map fun (n, rest) =>
    (n * Nat.pow 10 (6 - count), (rest.dropWhile Char.isDigit).isEmpty)

/-- A time of day as it is read: the hour, minute and second as far as they are written, the
microseconds, and whether the whole text was used. -/
structure Reading where
  components : List Nat
  microsecond : Nat
  complete : Bool

/-- Up to so many components of two digits, then a fraction. The first separator tells whether
colons are used; one ASCII character too many at the end is left over. -/
def components? : (count : Nat) → (colons : Option Bool) → Text → Option Reading
  | 0, _, s => (fraction? s).map fun (micros, complete) => ⟨[], micros, complete⟩
  | count + 1, colons, s =>
    match digits? 2 s with
    | none => none
    | some (n, []) => some ⟨[n], 0, true⟩
    | some (n, [c]) => if c.toNat < 128 then some ⟨[n], 0, false⟩ else none
    | some (n, c :: s) =>
      let colons := colons.getD (c == ':')
      let extend (r : Reading) : Reading := { r with components := n :: r.components }
      if colons && c == ':' then (components? count (some true) s).map extend
      else if c == '.' || c == ',' then
        (fraction? s).map fun (micros, complete) => ⟨[n], micros, complete⟩
      else if colons then none
      else (components? count (some false) (c :: s)).map extend

/-- The microseconds that a reading stands for. -/
def Reading.micros (r : Reading) : Nat :=
  let part (i : Nat) : Nat := (r.components[i]?).getD 0
  ((part 0 * 60 + part 1) * 60 + part 2) * 1000000 + r.microsecond

/-- The time of day that a reading stands for. -/
def Reading.time? (r : Reading) : Option TimeOfDay :=
  let part (i : Nat) : Nat := (r.components[i]?).getD 0
  TimeOfDay.ofParts? (part 0) (part 1) (part 2) r.microsecond

/-- The distance from universal time that ends a text: none, a `Z`, or a sign and a time. A distance
below one second is none at all. -/
def zone? : Text → Option (Option Offset)
  | [] => some none
  | ['Z'] => some (some .universal)
  | 'Z' :: _ => none
  | sign :: s => do
    let r ← components? 3 none s
    if r.complete then
      let micros : Int := if r.micros < 1000000 then 0 else r.micros
      (Offset.ofMicros? (if sign == '-' then -micros else micros)).map some
    else none

/-- Does the character start a distance from universal time? -/
def startsZone (c : Char) : Bool := c == '+' || c == '-' || c == 'Z'

/-- A time of day with its distance. In front of a distance a left-over is passed over. -/
def time? (s : Text) : Option (TimeOfDay × Option Offset) := do
  let zone := s.dropWhile (!startsZone ·)
  let r ← components? 3 none (s.takeWhile (!startsZone ·))
  let offset ← zone? zone
  if r.complete || !zone.isEmpty then
    (r.time?).map (·, offset)
  else none

end Iso

/-- The moment that a text stands for; a date alone is its midnight. -/
def readIso? (s : Text) : Option Moment := do
  let length ← Iso.dateLength? s
  let date ← Iso.date? (s.take length)
  if length < s.length then
    let (time, offset) ← Iso.time? (s.drop (length + 1))
    some ⟨date, time, offset⟩
  else some ⟨date, .midnight, none⟩

/-- The date that a text stands for. -/
def readIsoDate? (s : Text) : Option Date :=
  if s.length = 7 ∨ s.length = 8 ∨ s.length = 10 then Iso.date? s else none

namespace Iso

/-- At least one and at most so many decimal digits at the start of a text. -/
def someDigits? (most : Nat) (s : Text) : Option (List Nat × Text) :=
  let ds := ((s.take most).takeWhile isDecimalDigit).filterMap decimalDigit?
  if ds.isEmpty then none else some (ds, s.drop ds.length)

/-- A number of one or two decimal digits. -/
def shortNumber? (s : Text) : Option (Nat × Text) :=
  (someDigits? 2 s).map fun (ds, s) => (digitsValue ds, s)

/-- Exactly so many decimal digits. -/
def exactNumber? (count : Nat) (s : Text) : Option (Nat × Text) :=
  match someDigits? count s with
  | some (ds, s) => if ds.length = count then some (digitsValue ds, s) else none
  | none => none

/-- The character at the start of a text, taken off it. -/
def drop? (p : Char → Bool) : Text → Option Text
  | c :: s => if p c then some s else none
  | [] => none

/-- A fraction of at most twelve digits, of which six count. -/
def looseFraction? (s : Text) : Option (Nat × Text) :=
  match drop? (fun c => c == '.' || c == ',') s with
  | none => some (0, s)
  | some s => (someDigits? 12 s).map fun (ds, s) =>
    let ds := ds.take 6
    (digitsValue ds * Nat.pow 10 (6 - ds.length), s)

/-- The seconds and their fraction, if there are any. -/
def looseSeconds? (s : Text) : Option (Nat × Nat × Text) :=
  match drop? (· == ':') s with
  | none => some (0, 0, s)
  | some s => do
    let (second, s) ← shortNumber? s
    let (micros, s) ← looseFraction? s
    some (second, micros, s)

/-- A distance of hours and perhaps minutes, or a `Z`, at the end of a text. -/
def looseZone? (s : Text) : Option (Option Offset) :=
  match s.dropWhile isBlank with
  | [] => some none
  | sign :: s => do
    let (minutes, s) ←
      if sign == 'Z' then some (0, s)
      else if sign == '+' || sign == '-' then do
        let (hours, s) ← exactNumber? 2 s
        match exactNumber? 2 (if s.head? == some ':' then s.drop 1 else s) with
        | some (minutes, s) => some (60 * hours + minutes, s)
        | none => some (60 * hours, s)
      else none
    if s == [] || s == ['\n'] then
      let micros : Int := minutes * 60000000
      (Offset.ofMicros? (if sign == '-' then -micros else micros)).map some
    else none

end Iso

/-- The moment that a text with short numbers stands for. -/
def readLoose? (s : Text) : Option Moment := do
  let (year, s) ← Iso.exactNumber? 4 s
  let (month, s) ← Iso.shortNumber? (← Iso.drop? (· == '-') s)
  let (day, s) ← Iso.shortNumber? (← Iso.drop? (· == '-') s)
  let (hour, s) ← Iso.shortNumber? (← Iso.drop? (fun c => c == 'T' || c == ' ') s)
  let (minute, s) ← Iso.shortNumber? (← Iso.drop? (· == ':') s)
  let (second, micros, s) ← Iso.looseSeconds? s
  let offset ← Iso.looseZone? s
  let date ← Date.ofParts? year month day
  let time ← TimeOfDay.ofParts? hour minute second micros
  some ⟨date, time, offset⟩

/-- The moment that a text stands for, in either form. -/
def readMoment? (s : Text) : Option Moment := (readIso? s).or (readLoose? s)

end Haulage
