/-
# Previews

The beginning of a long text, for tables and logs.
-/

namespace ScopedCss.Text

/-- How many characters of a text a preview shows. -/
def previewLength : Nat := 100

/-- A text cut to its preview, with three dots where something is missing. -/
def preview (text : String) : String :=
  let cs := text.toList
  if previewLength < cs.length then String.ofList (cs.take previewLength) ++ "..." else text

end ScopedCss.Text
