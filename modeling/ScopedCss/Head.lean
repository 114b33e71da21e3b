/-
# Styles in the head of a page

A page is served in chunks of bytes.  An injector watches the chunks for the end of the head and
puts a style element in front of the first one it sees; it does so once and leaves every other
chunk as it is.  The end of the head is only found within one chunk.
-/

import ScopedCss.Text.Bytes

namespace ScopedCss

namespace Head

/-- The end of the head. -/
def marker : List UInt8 :=
  Text.bytes "</head>".toList

/-- The id of the style element. -/
def elementId : String := "zero-css-ssr"

/-- One character of an attribute between double quotes. -/
def escapeChar (c : Char) : List Char :=
  if c = '&' then "&amp;".toList
  else if c = '"' then "&quot;".toList
  else if c = '<' then "&lt;".toList
  else if c = '>' then "&gt;".toList
  else [c]

/-- The text of an attribute between double quotes. -/
def escapeAttribute (cs : List Char) : List Char :=
  cs.flatMap escapeChar

/-- Cut bytes before the first place where others begin; nothing if there is no such place. -/
def cutBefore? (mark : List UInt8) : List UInt8 → Option (List UInt8 × List UInt8)
  | [] => if mark = [] then some ([], []) else none
  | b :: bs =>
    if mark.isPrefixOf (b :: bs) then some ([], b :: bs)
    else (cutBefore? mark bs).map fun cut => (b :: cut.1, cut.2)

end Head

/-- The style element for a page, and whether it has been put in. -/
structure HeadInjector where
  css : String
  nonce : Option String
  done : Bool
deriving DecidableEq, Repr

namespace HeadInjector

open Head

/-- An injector that has not done its work. -/
def new (css : String) (nonce : Option String) : HeadInjector :=
  ⟨css, nonce, false⟩

/-- The style element. -/
def styleTag (injector : HeadInjector) : List Char :=
  let nonce := match injector.nonce with
    | some nonce => " nonce=\"".toList ++ escapeAttribute nonce.toList ++ ['"']
    | none => []
  "<style id=\"".toList ++ elementId.toList ++ ['"'] ++ nonce ++ ['>'] ++ injector.css.toList ++
    "</style>".toList

/-- Pass one chunk. -/
def transform (injector : HeadInjector) (chunk : List UInt8) : HeadInjector × List UInt8 :=
  if injector.done then (injector, chunk)
  else
    match cutBefore? marker chunk with
    | none => (injector, chunk)
    | some (before, after) =>
      ({ injector with done := true }, before ++ Text.bytes injector.styleTag ++ after)

/-- Pass chunks one after the other. -/
def feed (injector : HeadInjector) : List (List UInt8) → HeadInjector × List (List UInt8)
  | [] => (injector, [])
  | chunk :: chunks =>
    let first := injector.transform chunk
    let rest := first.1.feed chunks
    (rest.1, first.2 :: rest.2)

/-- Pass an item of a stream: a chunk, or a failure that is left alone. -/
def transformItem {ε : Type} (injector : HeadInjector) :
    Except ε (List UInt8) → HeadInjector × Except ε (List UInt8)
  | .ok chunk => ((injector.transform chunk).1, .ok (injector.transform chunk).2)
  | .error e => (injector, .error e)

/-- Pass the items of a stream. -/
def run {ε : Type} (injector : HeadInjector) :
    List (Except ε (List UInt8)) → HeadInjector × List (Except ε (List UInt8))
  | [] => (injector, [])
  | item :: items =>
    let first := injector.transformItem item
    let rest := first.1.run items
    (rest.1, first.2 :: rest.2)

end HeadInjector

end ScopedCss
