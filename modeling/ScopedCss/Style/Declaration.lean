/-
# Declarations

A property is written in camel case in a style and in kebab case in CSS; custom properties, which
begin with two hyphens, keep their name.
-/

import ScopedCss.Style.Json
import ScopedCss.Text.Lowercase

namespace ScopedCss.Declaration

/-- Lower a name and put a hyphen before each of its ASCII capitals. -/
def kebab (name : List Char) : List Char :=
  name.flatMap fun c => if c.isUpper then '-' :: Text.lowerChar c else Text.lowerChar c

/-- The CSS name of a key. -/
def propertyName (key : List Char) : List Char :=
  if ['-', '-'].isPrefixOf key then key else kebab key

/-- The declaration that gives the property of a key a value. -/
def write (key value : List Char) : List Char :=
  propertyName key ++ ':' :: ' ' :: (value ++ [';'])

end ScopedCss.Declaration
