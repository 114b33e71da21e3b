/-
# Inputs

What a caller hands in to get a class: a style or a template.  Either has an identity, a text that
its id is the digest of, and compiles to CSS for the class of that id.  The text of a template is
put as it is between the braces of a rule for the class, so a text that closes this block early
makes more than one rule.
-/

import ScopedCss.Digest
import ScopedCss.Style.Rules
import ScopedCss.Template

namespace ScopedCss

/-- A style or a template. -/
inductive StyleInput where
  | template (t : Template)
  | style (s : Style)
deriving DecidableEq

/-- What an input compiles to. -/
structure CompiledInput where
  id : String
  className : String
  css : String
deriving DecidableEq, Repr

namespace StyleInput

/-- The text that the id of an input is the digest of. -/
def identity : StyleInput → String
  | .template t => t.css
  | .style s => s.json

/-- The id of an input. -/
def id (input : StyleInput) : String :=
  Digest.ofText input.identity

/-- The CSS of an input for a class. -/
def cssFor (className : String) : StyleInput → String
  | .template t => "." ++ className ++ " \x7b " ++ t.css ++ " \x7d"
  | .style s => s.compile className

/-- The id, class name and CSS of an input. -/
def compile (input : StyleInput) : CompiledInput :=
  let className := Digest.className input.id
  ⟨input.id, className, input.cssFor className⟩

end StyleInput

end ScopedCss
