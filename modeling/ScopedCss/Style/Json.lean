/-
# The JSON form of a style

A style is written as one line of JSON: its entries in order, without white space, a block as an
object.  This text is what a style is known by, so a change of any key, order, text or number shows
in it.
-/

import ScopedCss.Style.Basic
import ScopedCss.Json.Quoted

namespace ScopedCss

/-- The text of a scalar in the JSON form of a style. -/
def Scalar.json : Scalar → List Char
  | .text s => Json.quote s.toList
  | .number n => n.json

namespace Style

/-- The JSON form of a style from its next entry on; every entry but the first follows a comma. -/
def jsonFrom (first : Bool) : Style → List Char
  | .empty => ['\x7d']
  | .property key value rest =>
    (if first then [] else [',']) ++ Json.quote key.toList ++ ':' :: (value.json ++
      jsonFrom false rest)
  | .block key body rest =>
    (if first then [] else [',']) ++ Json.quote key.toList ++ ':' :: '\x7b' ::
      (jsonFrom true body ++ jsonFrom false rest)

/-- The JSON form of a style. -/
def json (style : Style) : String :=
  String.ofList ('\x7b' :: jsonFrom true style)

end Style

/-- The text of an entry's value: of a scalar as it appears in CSS, of a block its JSON form. -/
def Value.css : Value → List Char
  | .scalar s => s.css
  | .block body => body.json.toList

end ScopedCss
