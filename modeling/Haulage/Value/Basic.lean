/-
# Values

The values that variables, requests and results may have. Formulas compute with numbers and texts,
but what callers supply can be of any kind, so every kind is a value and each operation says what it
does with each of them.

A mapping keeps its entries in the order in which their keys were first put.
-/
import Haulage.Number.Decimal
import Haulage.Calendar.Moment
import Haulage.Text.Basic

namespace Haulage

/-- A value of any kind. -/
inductive Value
  | null
  | bool (b : Bool)
  | int (n : Int)
  | float (x : Float)
  | text (s : Text)
  | decimal (d : Decimal)
  | moment (m : Moment)
  | date (d : Date)
  | list (items : List Value)
  | mapping (entries : List (Text × Value))
deriving Inhabited

/-- The kinds of values. -/
inductive Kind
  | null | bool | int | float | text | decimal | moment | date | list | mapping
deriving DecidableEq, Repr

namespace Kind

/-- The name of a kind in a message. -/
def name : Kind → String
  | null => "NoneType"
  | bool => "bool"
  | int => "int"
  | float => "float"
  | text => "str"
  | decimal => "decimal.Decimal"
  | moment => "datetime.datetime"
  | date => "datetime.date"
  | list => "list"
  | mapping => "dict"

/-- The name of a kind without the family it belongs to. -/
def shortName : Kind → String
  | decimal => "Decimal"
  | moment => "datetime"
  | date => "date"
  | kind => kind.name

end Kind

namespace Value

/-- The kind of a value. -/
def kind : Value → Kind
  | null => .null
  | bool _ => .bool
  | int _ => .int
  | float _ => .float
  | text _ => .text
  | decimal _ => .decimal
  | moment _ => .moment
  | date _ => .date
  | list _ => .list
  | mapping _ => .mapping

/-- Does the value count as true? Zeros, empty texts and collections, and null do not. -/
def isTruthy : Value → Bool
  | null => false
  | bool b => b
  | int n => n != 0
  | float x => !(x == 0)
  | text s => !s.isEmpty
  | decimal d => !d.isZero
  | moment _ => true
  | date _ => true
  | list items => !items.isEmpty
  | mapping entries => !entries.isEmpty

/-- Is the value null? -/
def isNull : Value → Bool
  | null => true
  | _ => false

end Value

/-- The entries with one put under a key: in place of the one it had, or at the end. -/
def putEntry {α : Type} (key : Text) (value : α) : List (Text × α) → List (Text × α)
  | [] => [(key, value)]
  | (k, v) :: rest => if k == key then (k, value) :: rest else (k, v) :: putEntry key value rest

/-- The entries of pairs put one after the other, so that of one key's values the last is kept. -/
def entriesOf {α : Type} (pairs : List (Text × α)) : List (Text × α) :=
  pairs.foldl (fun entries (k, v) => putEntry k v entries) []

/-- What is put under a key is found there. -/
@[simp] theorem lookup_putEntry_self {α : Type} (key : Text) (value : α)
    (entries : List (Text × α)) : (putEntry key value entries).lookup key = some value := by
  induction entries with
  | nil => grind [putEntry]
  | cons e rest ih => grind [putEntry]

/-- What is put under a key changes nothing under another. -/
theorem lookup_putEntry_of_ne {α : Type} {key other : Text} (different : other ≠ key) (value : α)
    (entries : List (Text × α)) :
    (putEntry key value entries).lookup other = entries.lookup other := by
  induction entries with
  | nil => grind [putEntry]
  | cons e rest ih => grind [putEntry]

end Haulage
