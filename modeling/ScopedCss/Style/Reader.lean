/-
# Styles from JSON

There are three ways from JSON to a style.  `Style.parse` reads a text and keeps the written order
of the keys.  `Style.ofJson` and `Style.decode` take a JSON value, whose objects are already in the
order of their keys; they differ in what they say of a value that is no style.  All three take a
number as a number, and `null` and the two Boolean values as their text; a list has no place in a
style.
-/

import ScopedCss.Style.Basic
import ScopedCss.Json.Reader

namespace ScopedCss

/-- Why a JSON value is not a style. -/
inductive Misfit where
  | notObject (found : String)
  | list
  | outOfRange
  | other (message : String)
deriving DecidableEq, Repr

/-- A key, and what is wrong there. -/
structure InvalidStyle where
  key : String
  reason : Misfit
deriving DecidableEq, Repr

/-- The scalar that a JSON atom stands for. -/
def Scalar.ofAtom : Json.Atom → Scalar
  | .null => .text "null"
  | .bool true => .text "true"
  | .bool false => .text "false"
  | .numeral n => .number n.toNumber
  | .text s => .text s

namespace Style

/-- What reading a style from a text builds and refuses: the text must be an object, and a list is
nowhere in place. -/
def shape : Json.Shape Style Value where
  root a := .error ⟨some a, .style⟩
  atom a := .ok (.scalar (.ofAtom a))
  list outermost := .error ⟨none, if outermost then .style else .value⟩
  object members := .ofEntries members
  nest body := .block body

/-- Read a style from a JSON text. -/
def parse (text : String) : Except Json.ReadError Style :=
  shape.read text.toList

mutual

/-- The value that a JSON value stands for under a key. -/
def valueOfJson (key : String) : Json → Except InvalidStyle Value
  | .atom (.numeral n) =>
    match n.toNumber? with
    | some x => .ok (.scalar (.number x))
    | none => .error ⟨key, .outOfRange⟩
  | .atom a => .ok (.scalar (.ofAtom a))
  | .list _ => .error ⟨key, .list⟩
  | .object members => (styleOfMembers members).map .block

/-- The style with the given members as its entries. -/
def styleOfMembers : List (String × Json) → Except InvalidStyle Style
  | [] => .ok .empty
  | (key, x) :: rest => do
    let value ← valueOfJson key x
    let tail ← styleOfMembers rest
    .ok (.cons key value tail)

end

/-- What kind of value a JSON value is. -/
def kindName : Json → String
  | .atom .null => "null"
  | .atom (.bool _) => "a boolean"
  | .atom (.numeral _) => "a number"
  | .atom (.text _) => "a string"
  | .list _ => "an array"
  | .object _ => "an object"

/-- The style that a JSON value stands for; an error names the key where it arose. -/
def ofJson : Json → Except InvalidStyle Style
  | .object members => styleOfMembers members
  | x => .error ⟨"<root>", .notObject (kindName x)⟩

mutual

/-- The value that a JSON value stands for; an error tells what was met. -/
def decodeValue : Json → Except Json.Mismatch Value
  | .atom a => .ok (.scalar (.ofAtom a))
  | .list _ => .error ⟨none, .value⟩
  | .object members => (decodeMembers .empty members).map .block

/-- Set the given members, in order, in a style. -/
def decodeMembers (style : Style) : List (String × Json) → Except Json.Mismatch Style
  | [] => .ok style
  | (key, x) :: rest => do
    let value ← decodeValue x
    decodeMembers (style.set key value) rest

end

/-- The style that a JSON value stands for; an error tells what was met and what was due. -/
def decode : Json → Except Json.Mismatch Style
  | .object members => decodeMembers .empty members
  | .atom a => .error ⟨some a, .style⟩
  | .list _ => .error ⟨none, .style⟩

end Style

end ScopedCss
