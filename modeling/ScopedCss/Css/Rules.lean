/-
# Cutting a CSS text into rules

A rule ends with the curly block that stands outside every other bracket, and it begins with the
first lexeme after the previous rule that is neither blank nor a comment.  `cut` finds these
stretches in a sequence of lexemes while it keeps the stack of open brackets; a closing bracket that
does not match the innermost open one is passed over.  `rules` adds what a sheet needs: rules are
trimmed, a text without any block is taken as a single rule, and fragments that cannot be rules are
left out.
-/

import ScopedCss.Css.Lexeme
import ScopedCss.Text.Blank
import ScopedCss.Text.Units

namespace ScopedCss.Css

/-- The rules in a sequence of lexemes.  `pending` is the text since the rule in progress began, and
`nest` the open brackets, innermost first.  A closing curly bracket outside all others discards what
is pending; a block that the end of the text leaves open ends its rule there. -/
def cut (pending : List Char) (nest : List Bracket) : List Lexeme → List (List Char)
  | [] => if nest.getLast? = some .curly then [pending] else []
  | x :: xs =>
    match nest with
    | [] =>
      match x.kind with
      | .blank | .comment => cut (if pending = [] then [] else pending ++ x.text) [] xs
      | .closing .curly => cut [] [] xs
      | .opening b => cut (pending ++ x.text) [b] xs
      | .closing _ | .plain => cut (pending ++ x.text) [] xs
    | innermost :: outer =>
      let grown := pending ++ x.text
      match x.kind with
      | .opening b => cut grown (b :: innermost :: outer) xs
      | .closing b =>
        if b ≠ innermost then cut grown (innermost :: outer) xs
        else if b = .curly ∧ outer = [] then grown :: cut [] [] xs
        else cut grown outer xs
      | .blank | .comment | .plain => cut grown (innermost :: outer) xs

/-- Whether a fragment may be a rule: more than three bytes, with an opening and a closing brace. -/
def isRuleText (rule : List Char) : Bool :=
  3 < Text.byteLength rule && rule.contains '\x7b' && rule.contains '\x7d'

/-- The trimmed stretches that end with a block, or the whole trimmed text if there is none. -/
def candidates (css : List Char) : List (List Char) :=
  match cut [] [] (lex css) with
  | [] => if Text.trim css = [] then [] else [Text.trim css]
  | found => found.map Text.trim

/-- The complete top-level rules of a CSS text, in order. -/
def rules (css : List Char) : List (List Char) :=
  (candidates css).filter isRuleText

/-- The complete top-level rules of a CSS string, in order. -/
def splitRules (css : String) : List String :=
  (rules css.toList).map String.ofList

end ScopedCss.Css
