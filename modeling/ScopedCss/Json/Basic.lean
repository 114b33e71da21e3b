/-
# JSON values

The tree of a JSON text.  A number keeps whether it is an integer of 64 bits, with or without a
sign, or a real number.  The members of an object are kept in the order of their keys; `insert`
replaces the value of a key that is there already.
-/

import ScopedCss.Number.Basic

namespace ScopedCss

namespace Json

/-- A number in a JSON text: an integer that fits 64 bits, or a real number. -/
inductive Numeral where
  | integer (n : Int)
  | real (x : Number)
deriving DecidableEq

/-- A JSON value that holds no other value. -/
inductive Atom where
  | null
  | bool (b : Bool)
  | numeral (n : Numeral)
  | text (s : String)
deriving DecidableEq

/-- The value of a number in the 64-bit format. -/
def Numeral.toNumber : Numeral → Number
  | .integer n => Number.ofInt n
  | .real x => x

/-- The value of a number for those who ask whether it has one: integers are rounded, so none is
without. -/
def Numeral.toNumber? (n : Numeral) : Option Number :=
  some n.toNumber

end Json

/-- A JSON value. -/
inductive Json where
  | atom (a : Json.Atom)
  | list (items : List Json)
  | object (members : List (String × Json))

namespace Json

instance : Inhabited Json := ⟨.atom .null⟩

/-- Put a member among members that are in the order of their keys. -/
def insert {α : Type} (key : String) (value : α) : List (String × α) → List (String × α)
  | [] => [(key, value)]
  | (k, v) :: rest =>
    if key = k then (key, value) :: rest
    else if key < k then (key, value) :: (k, v) :: rest
    else (k, v) :: insert key value rest

/-- The members of an object in the order of their keys; of two with the same key the later one
stays. -/
def sortMembers {α : Type} (members : List (String × α)) : List (String × α) :=
  members.foldl (fun sorted member => insert member.1 member.2 sorted) []

/-- The value of a member. -/
def get? : Json → String → Option Json
  | .object members, key => members.lookup key
  | _, _ => none

/-- The text of a string value. -/
def text? : Json → Option String
  | .atom (.text s) => some s
  | _ => none

/-- The truth of a Boolean value. -/
def bool? : Json → Option Bool
  | .atom (.bool b) => some b
  | _ => none

/-- The integer of a number value. -/
def int? : Json → Option Int
  | .atom (.numeral (.integer n)) => some n
  | _ => none

/-- The items of a list value. -/
def items? : Json → Option (List Json)
  | .list items => some items
  | _ => none

/-- A string value. -/
def ofText (s : String) : Json := .atom (.text s)

/-- A Boolean value. -/
def ofBool (b : Bool) : Json := .atom (.bool b)

/-- An integer value. -/
def ofInt (n : Int) : Json := .atom (.numeral (.integer n))

/-- The value that stands for nothing. -/
def null : Json := .atom .null

/-- A value, or null. -/
def ofOption {α : Type} (write : α → Json) : Option α → Json
  | some x => write x
  | none => null

/-- An object with the given members. -/
def ofMembers (members : List (String × Json)) : Json :=
  .object (sortMembers members)

end Json

end ScopedCss
