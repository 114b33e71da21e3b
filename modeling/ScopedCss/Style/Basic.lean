/-
# Styles

A style is a sequence of entries in the order in which they were written.  An entry is either a
property with a scalar value or a block, a style of its own under a key.  The sequence is the type:
a style is empty, or an entry before the rest of the style, so the operations are plain recursions.

`set` replaces the value of a key where the key stands, and puts a new key at the end.  A style
built by it never holds a key twice.
-/

import ScopedCss.Number.Layout

namespace ScopedCss

/-- The value of a property. -/
inductive Scalar where
  | text (s : String)
  | number (n : Number)
deriving DecidableEq

/-- A sequence of properties and blocks. -/
inductive Style where
  | empty
  | property (key : String) (value : Scalar) (rest : Style)
  | block (key : String) (body : Style) (rest : Style)
deriving DecidableEq

/-- What an entry holds under its key. -/
inductive Value where
  | scalar (s : Scalar)
  | block (body : Style)
deriving DecidableEq

/-- The text of a scalar as it appears in CSS. -/
def Scalar.css : Scalar → List Char
  | .text s => s.toList
  | .number n => n.text

/-- The body of an entry that is a block. -/
def Value.body? : Value → Option Style
  | .scalar _ => none
  | .block body => some body

/-- Whether an entry is a block. -/
def Value.isBlock (value : Value) : Bool :=
  value.body?.isSome

namespace Style

instance : Inhabited Style := ⟨.empty⟩

/-- An entry before the rest of a style. -/
def cons (key : String) (value : Value) (rest : Style) : Style :=
  match value with
  | .scalar s => .property key s rest
  | .block body => .block key body rest

/-- The entries in order. -/
def entries : Style → List (String × Value)
  | .empty => []
  | .property key value rest => (key, .scalar value) :: entries rest
  | .block key body rest => (key, .block body) :: entries rest

/-- The keys in order. -/
def keys (style : Style) : List String :=
  style.entries.map Prod.fst

/-- The number of entries. -/
def length (style : Style) : Nat :=
  style.entries.length

/-- The value of a key. -/
def get? (style : Style) (key : String) : Option Value :=
  style.entries.lookup key

/-- Whether there is a block among the entries. -/
def hasBlock : Style → Bool
  | .empty => false
  | .property _ _ rest => hasBlock rest
  | .block _ _ _ => true

/-- Give a key a value: in place if the style has the key, else at the end. -/
def set : Style → String → Value → Style
  | .empty, key, value => cons key value .empty
  | .property k v rest, key, value =>
    if k = key then cons key value rest else .property k v (set rest key value)
  | .block k body rest, key, value =>
    if k = key then cons key value rest else .block k body (set rest key value)

/-- Set the values of keys, one after the other. -/
def setAll (style : Style) (members : List (String × Value)) : Style :=
  members.foldl (fun s member => s.set member.1 member.2) style

/-- The style in which keys are given values, one after the other. -/
def ofEntries (members : List (String × Value)) : Style :=
  empty.setAll members

end Style

/-- Whether two scalars are equal, numbers by value. -/
def Scalar.same : Scalar → Scalar → Bool
  | .text s, .text t => s == t
  | .number m, .number n => m.same n
  | _, _ => false

/-- Whether two styles have the same entries in the same order, numbers compared by value. -/
def Style.same : Style → Style → Bool
  | .empty, .empty => true
  | .property k v rest, .property k' v' rest' => k == k' && v.same v' && rest.same rest'
  | .block k body rest, .block k' body' rest' => k == k' && body.same body' && rest.same rest'
  | _, _ => false

/-- A style wrapped in so many blocks under one key. -/
def Style.wrap (key : String) (style : Style) : Nat → Style
  | 0 => style
  | n + 1 => .block key (style.wrap key n) .empty

namespace Style

@[simp] theorem entries_cons (key : String) (value : Value) (rest : Style) :
    (cons key value rest).entries = (key, value) :: rest.entries := by
  cases value <;> rfl

@[simp] theorem keys_empty : keys .empty = [] := rfl

theorem get?_cons (k key : String) (value : Value) (rest : Style) :
    (cons k value rest).get? key = if key = k then some value else rest.get? key := by
  simp only [get?, entries_cons, List.lookup_cons]
  by_cases h : key = k
  · simp [h]
  · rw [beq_eq_false_iff_ne.2 h]
    simp [h]

theorem get?_set (style : Style) (key other : String) (value : Value) :
    (style.set key value).get? other = if other = key then some value else style.get? other := by
  have step (k : String) (v : Value) (rest : Style)
      (ih : (rest.set key value).get? other =
        if other = key then some value else rest.get? other) :
      (if k = key then cons key value rest else cons k v (rest.set key value)).get? other =
        if other = key then some value else (cons k v rest).get? other := by
    by_cases hk : k = key
    · subst hk
      simp only [if_true, get?_cons]
      split <;> rfl
    · simp only [if_neg hk, get?_cons, ih]
      by_cases ho : other = k
      · simp [ho, hk]
      · simp [ho]
  induction style with
  | empty => exact get?_cons key other value .empty
  | property k v rest ih => exact step k (.scalar v) rest ih
  | block k body rest _ ih => exact step k (.block body) rest ih

@[simp] theorem setAll_cons (style : Style) (member : String × Value)
    (members : List (String × Value)) :
    style.setAll (member :: members) = (style.set member.1 member.2).setAll members := rfl

end Style

end ScopedCss
