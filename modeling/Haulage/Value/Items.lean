/-
# Looking into values

What a value yields when its items are asked for one by one, how long it is, what it holds, and what
stands under a key. Only texts, lists and mappings have items; only mappings have keys.
-/
import Haulage.Value.Order

namespace Haulage

namespace Value

/-- The items of a value: the characters of a text, the items of a list, the keys of a mapping. -/
def items : Value → Except ValueFault (List Value)
  | text s => .ok (s.map fun c => text [c])
  | list vs => .ok vs
  | mapping entries => .ok (entries.map fun (key, _) => text key)
  | v => .error (.notIterable v.kind)

/-- The number of items of a value. -/
def length : Value → Except ValueFault Nat
  | text s => .ok s.length
  | list vs => .ok vs.length
  | mapping entries => .ok entries.length
  | v => .error (.noLength v.kind)

/-- Does the value hold the wording: as a part of a text, an item of a list, a key of a mapping?
Nothing can be looked for in other values. -/
def mentions? (wording : String) : Value → Option Bool
  | text s => some (Text.occursIn wording.toList s)
  | list vs => some (vs.any fun v => v.equals (text wording.toList))
  | mapping entries => some (entries.any fun (key, _) => key == wording.toList)
  | _ => none

/-- The value under a key of a mapping, or another where there is none. -/
def getEntry (v : Value) (key : String) (otherwise : Value) : Except ValueFault Value :=
  match v with
  | mapping entries => .ok ((entries.lookup key.toList).getD otherwise)
  | v => .error (.noMember v.kind "get")

/-- The items of a value are as many as its length says. -/
theorem length_items {v : Value} {vs : List Value} (h : v.items = .ok vs) :
    v.length = .ok vs.length := by
  cases v <;> simp_all [items, length] <;> subst h <;> simp

/-- A mapping with fixed keys. -/
def record (entries : List (String × Value)) : Value :=
  mapping (entries.map fun (key, v) => (key.toList, v))

/-- A list of texts. -/
def texts (ss : List Text) : Value := list (ss.map text)

/-- Fixed wording as a value. -/
def ofString (s : String) : Value := text s.toList

end Value

end Haulage
