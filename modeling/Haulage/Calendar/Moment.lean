/-
# Moments

A moment is a date with a time of day, to the microsecond, and perhaps a distance from universal
time. One without a distance is taken to be in universal time where an instant is asked for.
-/
import Haulage.Calendar.Date
import Haulage.Number.Exact

namespace Haulage

/-- A time of day. -/
structure TimeOfDay where
  hour : Nat
  minute : Nat
  second : Nat
  microsecond : Nat
  hour_lt : hour < 24
  minute_lt : minute < 60
  second_lt : second < 60
  microsecond_lt : microsecond < 1000000
deriving DecidableEq

/-- The microseconds of a day. -/
def microsPerDay : Nat := 86400000000

namespace TimeOfDay

/-- The time of day with these numbers, if there is one. -/
def ofParts? (hour minute second microsecond : Nat) : Option TimeOfDay :=
  if h : hour < 24 ∧ minute < 60 ∧ second < 60 ∧ microsecond < 1000000 then
    some ⟨hour, minute, second, microsecond, h.1, h.2.1, h.2.2.1, h.2.2.2⟩
  else none

/-- The start of a day. -/
def midnight : TimeOfDay := ⟨0, 0, 0, 0, by decide, by decide, by decide, by decide⟩

/-- The microseconds since midnight. -/
def micros (t : TimeOfDay) : Nat :=
  ((t.hour * 60 + t.minute) * 60 + t.second) * 1000000 + t.microsecond

/-- The time so many microseconds after midnight, whole days dropped. -/
def ofMicros (n : Nat) : TimeOfDay where
  hour := n / 3600000000 % 24
  minute := n / 60000000 % 60
  second := n / 1000000 % 60
  microsecond := n % 1000000
  hour_lt := Nat.mod_lt _ (by decide)
  minute_lt := Nat.mod_lt _ (by decide)
  second_lt := Nat.mod_lt _ (by decide)
  microsecond_lt := Nat.mod_lt _ (by decide)

end TimeOfDay

/-- A distance from universal time in microseconds, positive to the east, below one day. -/
structure Offset where
  micros : Int
  lower : -(microsPerDay : Int) < micros
  upper : micros < microsPerDay
deriving DecidableEq

namespace Offset

/-- The distance of so many microseconds, if it is below one day. -/
def ofMicros? (n : Int) : Option Offset :=
  if h : -(microsPerDay : Int) < n ∧ n < microsPerDay then some ⟨n, h.1, h.2⟩ else none

/-- No distance. -/
def universal : Offset := ⟨0, by decide, by decide⟩

end Offset

/-- A date, a time of day and perhaps a distance from universal time. -/
structure Moment where
  date : Date
  time : TimeOfDay
  offset : Option Offset
deriving DecidableEq

namespace Moment

/-- The ordinal of the first of January 1970. -/
def epochOrdinal : Nat := 719163

/-- The microseconds from the start of 1970 in universal time. -/
def microsSinceEpoch (m : Moment) : Int :=
  ((m.date.ordinal : Int) - epochOrdinal) * microsPerDay + m.time.micros -
    (m.offset.map (·.micros)).getD 0

/-- The milliseconds from the start of 1970, as a float: the seconds are rounded to a float, that
is multiplied by a thousand, and what stands after the point is dropped. -/
def epochMillis (m : Moment) : Float :=
  let micros := m.microsSinceEpoch
  let seconds := nearestQuotient (micros < 0) micros.natAbs 1000000
  Float.ofInt ((Exact.trunc? (seconds * 1000)).getD 0)

/-- The same instant in universal time, if its date is still in the calendar. -/
def toUniversal? (m : Moment) : Option Moment :=
  let shifted : Int := m.time.micros - (m.offset.map (·.micros)).getD 0
  let date? :=
    if shifted < 0 then m.date.previous?
    else if shifted < microsPerDay then some m.date
    else m.date.next?
  date?.map fun date => ⟨date, .ofMicros (shifted % microsPerDay).toNat, some .universal⟩

/-- The start of a date. -/
def ofDate (d : Date) : Moment := ⟨d, .midnight, none⟩

end Moment

end Haulage
