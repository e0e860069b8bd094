/-
# Values on display

`Value.shown` shows a value as it is reported to a person, texts between quotes; `Value.written` is
the same without the quotes around a text. Both can fail, on an integer with too many digits.
-/
import Haulage.Value.Fault
import Haulage.Calendar.Iso

namespace Haulage

/-- The digits of an integer, unless there are too many. -/
def integerDigitsText (n : Int) : Except ValueFault Text :=
  if Nat.pow 10 ValueFault.mostDigits ≤ n.natAbs then .error .tooManyDigitsToWrite
  else .ok (integerText n)

/-- Numbers with a comma and a space between them. -/
def commaSeparated (parts : List Text) : Text := Text.join [',', ' '] parts

/-- A date on display. -/
def Date.shown (d : Date) : Text :=
  "datetime.date(".toList ++ commaSeparated [digitsOf d.year, digitsOf d.month, digitsOf d.day] ++
    [')']

/-- A distance from universal time on display: days, seconds and microseconds, the last two never
negative. -/
def Offset.shown (o : Offset) : Text :=
  if o.micros = 0 then "datetime.timezone.utc".toList
  else
    let days := o.micros / microsPerDay
    let rest := (o.micros % microsPerDay).toNat
    let part (name : String) (n : Int) : List Text :=
      if n = 0 then [] else [name.toList ++ '=' :: integerText n]
    "datetime.timezone(datetime.timedelta(".toList ++
      commaSeparated (part "days" days ++ part "seconds" (rest / 1000000 : Nat) ++
        part "microseconds" (rest % 1000000 : Nat)) ++ [')', ')']

/-- A moment on display: seconds and microseconds only where there are any. -/
def Moment.shown (m : Moment) : Text :=
  let t := m.time
  let small :=
    if t.microsecond ≠ 0 then [digitsOf t.second, digitsOf t.microsecond]
    else if t.second ≠ 0 then [digitsOf t.second]
    else []
  let zone := match m.offset with
    | some o => ["tzinfo=".toList ++ o.shown]
    | none => []
  "datetime.datetime(".toList ++
    commaSeparated ([digitsOf m.date.year, digitsOf m.date.month, digitsOf m.date.day,
      digitsOf t.hour, digitsOf t.minute] ++ small ++ zone) ++ [')']

namespace Value

mutual

/-- A value on display. -/
def shown : Value → Except ValueFault Text
  | null => .ok "None".toList
  | bool b => .ok (if b then "True" else "False").toList
  | int n => integerDigitsText n
  | float x => .ok (floatText x)
  | text s => .ok s.quoted
  | decimal d => .ok ("Decimal('".toList ++ d.write ++ "')".toList)
  | moment m => .ok m.shown
  | date d => .ok d.shown
  | list items =>
    match shownItems items with
    | .ok parts => .ok ('[' :: (commaSeparated parts ++ [']']))
    | .error f => .error f
  | mapping entries =>
    match shownEntries entries with
    | .ok parts => .ok ('\x7b' :: (commaSeparated parts ++ ['\x7d']))
    | .error f => .error f

/-- The items of a list on display. -/
def shownItems : List Value → Except ValueFault (List Text)
  | [] => .ok []
  | v :: vs =>
    match shown v, shownItems vs with
    | .ok part, .ok parts => .ok (part :: parts)
    | .error f, _ => .error f
    | _, .error f => .error f

/-- The entries of a mapping on display. -/
def shownEntries : List (Text × Value) → Except ValueFault (List Text)
  | [] => .ok []
  | (key, v) :: entries =>
    match shown v, shownEntries entries with
    | .ok part, .ok parts => .ok ((key.quoted ++ ':' :: ' ' :: part) :: parts)
    | .error f, _ => .error f
    | _, .error f => .error f

end

/-- A value written out: a text stands for itself. -/
def written : Value → Except ValueFault Text
  | text s => .ok s
  | decimal d => .ok d.write
  | moment m => .ok (m.date.isoText ++ ' ' :: m.isoText.drop 11)
  | date d => .ok d.isoText
  | v => v.shown

end Value

end Haulage
