/-
# Style elements

A style element holds CSS as one text.  `ElementHost` is what a target asks of an element; one that
cannot append by itself replaces its text by the longer one.
-/

namespace ScopedCss

/-- What a target asks of an element. -/
class ElementHost (ε : Type) where
  text : ε → String
  setText : ε → String → ε
  appendText : ε → String → ε := fun element more => setText element (text element ++ more)

/-- The text of an element. -/
structure Element where
  content : String
deriving DecidableEq, Repr

/-- An element without text. -/
def Element.empty : Element := ⟨""⟩

instance : ElementHost Element where
  text element := element.content
  setText _ content := ⟨content⟩
  appendText element more := ⟨element.content ++ more⟩

/-- An element that can only be read and replaced. -/
structure PlainElement where
  element : Element
deriving DecidableEq, Repr

instance : ElementHost PlainElement where
  text plain := plain.element.content
  setText _ content := ⟨⟨content⟩⟩

end ScopedCss
