/-
# Keys of blocks

The key of a block says by its first characters how the block stands to the selector around it, its
scope: appended to it, combined with it, wrapped around it, or on its own.
-/

namespace ScopedCss

/-- How the key of a block stands to the scope around it. -/
inductive NestedKey where
  | pseudo
  | parent
  | attribute
  | combinator
  | conditional
  | literal
deriving DecidableEq, Repr

namespace NestedKey

/-- The at-rules that keep the scope for the block inside them. -/
def conditionalRules : List (List Char) :=
  ["@media".toList, "@container".toList, "@supports".toList]

/-- The role of a key, decided by its first characters; an attribute selector is also known by its
last. -/
def classify (key : List Char) : NestedKey :=
  if key.head? = some ':' then .pseudo
  else if key.head? = some '&' then .parent
  else if key.head? = some '[' ∧ key.getLast? = some ']' then .attribute
  else if key.head? = some '>' ∨ key.head? = some '+' ∨ key.head? = some '~' then .combinator
  else if conditionalRules.any (·.isPrefixOf key) then .conditional
  else .literal

/-- Put a text in the place of the first `&`. -/
def replaceParent (scope : List Char) : List Char → List Char
  | [] => []
  | c :: cs => if c = '&' then scope ++ cs else c :: replaceParent scope cs

/-- The selector of a block whose key has a given role.  Without a scope every key stands for
itself; a conditional at-rule leaves the scope as it is. -/
def resolve (role : NestedKey) (key scope : List Char) : List Char :=
  if scope = [] then key
  else
    match role with
    | .pseudo | .attribute => scope ++ key
    | .parent => replaceParent scope key
    | .combinator => scope ++ ' ' :: key
    | .conditional => scope
    | .literal => key

end NestedKey

end ScopedCss
