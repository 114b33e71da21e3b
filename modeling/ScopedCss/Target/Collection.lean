/-
# Collections

Without a document, styles are collected by id until a response takes them along.  Inserting an id
again replaces its CSS where it stands.
-/

import ScopedCss.Table

namespace ScopedCss

/-- Texts with a line break between them. -/
def joinLines (lines : List String) : String :=
  String.intercalate "\n" lines

/-- The CSS of the styles collected so far, by id. -/
structure Collection where
  styles : Table String
deriving DecidableEq, Repr

namespace Collection

/-- A collection without styles. -/
def empty : Collection := ⟨[]⟩

/-- Record the CSS of a style. -/
def insert (collection : Collection) (id css : String) : Collection :=
  ⟨collection.styles.put id css⟩

/-- All CSS collected, one style after the other. -/
def text (collection : Collection) : String :=
  joinLines collection.styles.values

/-- The CSS of a style. -/
def get? (collection : Collection) (id : String) : Option String :=
  collection.styles.get? id

/-- The ids collected, in order. -/
def ids (collection : Collection) : List String :=
  collection.styles.keys

/-- The number of styles collected. -/
def length (collection : Collection) : Nat :=
  collection.styles.length

/-- All CSS collected, and the collection that is left: an empty one. -/
def take (collection : Collection) : String × Collection :=
  (collection.text, empty)

end Collection

end ScopedCss
