/-
# From styles to rules

The properties of a style become the declarations of one rule, and each of its blocks becomes a rule
of its own, whose selector is resolved against the scope around it.  At the top the rules stand side
by side; below, the rules of a block's blocks stand inside its braces, after its declarations.
Conditional at-rules keep the scope and hold a rule for it.

Values are not checked: what a style holds ends up in the CSS.
-/

import ScopedCss.Style.Declaration
import ScopedCss.Style.NestedKey

namespace ScopedCss

/-- Texts with one space between them. -/
def joinWords (parts : List (List Char)) : List Char :=
  List.intercalate [' '] parts

/-- A rule with the given selector and text between its braces. -/
def rule (selector body : List Char) : List Char :=
  selector ++ ' ' :: '\x7b' :: ' ' :: (if body = [] then ['\x7d'] else body ++ [' ', '\x7d'])

namespace Style

/-- The declarations of the properties of a style, in order. -/
def declarations : Style → List (List Char)
  | .empty => []
  | .property key value rest => Declaration.write key.toList value.css :: declarations rest
  | .block _ _ rest => declarations rest

/-- The rules of the blocks of a style, in order, resolved against a scope. -/
def nestedRules (scope : List Char) : Style → List (List Char)
  | .empty => []
  | .property _ _ rest => nestedRules scope rest
  | .block key body rest =>
    let role := NestedKey.classify key.toList
    let inner := if role = .conditional then scope else role.resolve key.toList scope
    let text := joinWords (declarations body ++ nestedRules inner body)
    let whole :=
      if role = .conditional then
        rule key.toList (if scope = [] then text else rule scope text)
      else rule inner text
    whole :: nestedRules scope rest

/-- The text between the braces of a block: its declarations, then the rules of its blocks. -/
def blockText (scope : List Char) (style : Style) : List Char :=
  joinWords (style.declarations ++ style.nestedRules scope)

/-- The rules of a style for a class.  The rule of the class itself is left out when the style has
blocks but no properties. -/
def topRules (name : List Char) (style : Style) : List (List Char) :=
  let scope := '.' :: name
  let own :=
    if style.hasBlock ∧ style.declarations = [] then []
    else [rule scope (joinWords style.declarations)]
  own ++ style.nestedRules scope

/-- The CSS of a style for a class. -/
def compile (style : Style) (name : String) : String :=
  String.ofList (joinWords (style.topRules name.toList))

/-- The CSS between the braces of a block with the given scope. -/
def compileBlock (style : Style) (scope : String) : String :=
  String.ofList (style.blockText scope.toList)

end Style

end ScopedCss
