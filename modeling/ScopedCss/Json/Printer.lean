/-
# Writing JSON

The compact text of a JSON value: no white space, members in the order of the object.  A real number
is written with a point or an exponent, so that it is not taken for an integer.
-/

import ScopedCss.Json.Basic
import ScopedCss.Json.Quoted
import ScopedCss.Number.Layout

namespace ScopedCss.Json

/-- The text of a number. -/
def Numeral.render : Numeral → List Char
  | .integer n => ScopedCss.Numeral.signedDecimal n
  | .real (.finite x) => Layout.diagnostic.finite x
  | .real x => x.json

/-- The text of an atom. -/
def Atom.render : Atom → List Char
  | .null => ['n', 'u', 'l', 'l']
  | .bool true => ['t', 'r', 'u', 'e']
  | .bool false => ['f', 'a', 'l', 's', 'e']
  | .numeral n => n.render
  | .text s => quote s.toList

mutual

/-- The text of a value. -/
def render : Json → List Char
  | .atom a => a.render
  | .list items => '[' :: renderItems true items
  | .object members => '\x7b' :: renderMembers true members

/-- The text of a list from its next item on; every item but the first follows a comma. -/
def renderItems (first : Bool) : List Json → List Char
  | [] => [']']
  | x :: rest => (if first then [] else [',']) ++ render x ++ renderItems false rest

/-- The text of an object from its next member on; every member but the first follows a comma. -/
def renderMembers (first : Bool) : List (String × Json) → List Char
  | [] => ['\x7d']
  | (key, x) :: rest =>
    (if first then [] else [',']) ++ quote key.toList ++ ':' :: render x ++
      renderMembers false rest

end

end ScopedCss.Json
