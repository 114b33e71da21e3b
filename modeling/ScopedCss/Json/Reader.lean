/-
# Reading JSON

One reader serves every purpose.  It takes the lexemes of a text one at a time and keeps the
containers it is inside of; what is built, and what is refused although it is well formed, is told
by a `Shape`.  A refusal comes as soon as the value is met, before anything after it is looked at.

At most 127 containers may be open at a time.
-/

import ScopedCss.Json.Lexeme

namespace ScopedCss.Json

/-- What a reader looked for where it met something else. -/
inductive Expected where
  | style
  | value
deriving DecidableEq, Repr

/-- A well-formed value that has no place where it stands: an atom, or a list. -/
structure Mismatch where
  found : Option Atom
  expected : Expected
deriving DecidableEq

/-- Why a text was not read. -/
inductive ReadError where
  | fault (fault : Fault)
  | mismatch (mismatch : Mismatch)
deriving DecidableEq

/-- What a reader builds.  A text as a whole becomes a `ρ`, a value inside a container an `α`; every
container could be the whole text, and `nest` makes an inner value of it.  `list` is asked about
whether it stands outside every other container. -/
structure Shape (ρ α : Type) where
  root : Atom → Except Mismatch ρ
  atom : Atom → Except Mismatch α
  list : Bool → Except Mismatch (List α → ρ)
  object : List (String × α) → ρ
  nest : ρ → α

/-- A container around the one being read: what precedes, and the key of the member. -/
inductive Frame (α : Type) where
  | item (before : List α)
  | member (before : List (String × α)) (key : String)

/-- What a reader is waiting for, in the container it is in and inside the containers around it. -/
inductive Waiting (ρ α : Type) where
  | value (around : List (Frame α))
  | firstItem (around : List (Frame α))
  | afterItem (items : List α) (around : List (Frame α))
  | firstKey (around : List (Frame α))
  | key (members : List (String × α)) (around : List (Frame α))
  | colon (members : List (String × α)) (key : String) (around : List (Frame α))
  | afterMember (members : List (String × α)) (around : List (Frame α))
  | nothing (result : ρ)

/-- How many containers may be open at a time. -/
def depthLimit : Nat := 127

namespace Shape

variable {ρ α : Type} (shape : Shape ρ α)

/-- Put an inner value into the innermost container. -/
def place (x : α) : Frame α → List (Frame α) → Waiting ρ α
  | .item before, around => .afterItem (before ++ [x]) around
  | .member before key, around => .afterMember (before ++ [(key, x)]) around

/-- Close a container whose value is `r`. -/
def close (r : ρ) : List (Frame α) → Waiting ρ α
  | [] => .nothing r
  | frame :: around => place (shape.nest r) frame around

/-- Take an atom where a value is due. -/
def takeAtom (a : Atom) : List (Frame α) → Except ReadError (Waiting ρ α)
  | [] => (shape.root a).mapError .mismatch |>.map .nothing
  | frame :: around => (shape.atom a).mapError .mismatch |>.map (place · frame around)

/-- Take a lexeme where a value is due. -/
def takeValue (around : List (Frame α)) : Lexeme → Except ReadError (Waiting ρ α)
  | .atom a => shape.takeAtom a around
  | .openObject =>
    if around.length < depthLimit then .ok (.firstKey around) else .error (.fault .malformed)
  | .openList =>
    if around.length < depthLimit then
      (shape.list around.isEmpty).mapError .mismatch |>.map fun _ => .firstItem around
    else .error (.fault .malformed)
  | .broken _ fault => .error (.fault fault)
  | _ => .error (.fault .malformed)

/-- Take a lexeme where a key is due. -/
def takeKey (members : List (String × α)) (around : List (Frame α)) :
    Lexeme → Except ReadError (Waiting ρ α)
  | .atom (.text key) => .ok (.colon members key around)
  | .broken true fault => .error (.fault fault)
  | _ => .error (.fault .malformed)

/-- Close the list being read. -/
def closeList (items : List α) (around : List (Frame α)) : Except ReadError (Waiting ρ α) :=
  (shape.list around.isEmpty).mapError .mismatch |>.map fun build =>
    shape.close (build items) around

/-- Take one lexeme. -/
def step : Waiting ρ α → Lexeme → Except ReadError (Waiting ρ α)
  | .value around, x => shape.takeValue around x
  | .firstItem around, .closeList => shape.closeList [] around
  | .firstItem around, x => shape.takeValue (.item [] :: around) x
  | .afterItem items around, .comma => .ok (.value (.item items :: around))
  | .afterItem items around, .closeList => shape.closeList items around
  | .firstKey around, .closeObject => .ok (shape.close (shape.object []) around)
  | .firstKey around, x => takeKey [] around x
  | .key members around, x => takeKey members around x
  | .colon members key around, .colon => .ok (.value (.member members key :: around))
  | .afterMember members around, .comma => .ok (.key members around)
  | .afterMember members around, .closeObject =>
    .ok (shape.close (shape.object members) around)
  | _, _ => .error (.fault .malformed)

/-- Take the lexemes of a text; the text must be a whole value. -/
def run : Waiting ρ α → List Lexeme → Except ReadError ρ
  | .nothing r, [] => .ok r
  | _, [] => .error (.fault .ended)
  | w, x :: xs =>
    match shape.step w x with
    | .ok w => run w xs
    | .error e => .error e

/-- Read a text. -/
def read (text : List Char) : Except ReadError ρ :=
  shape.run (.value []) (lex text)

end Shape

/-- Any value at all: objects have their members sorted, and of two with the same key the later one
stays. -/
def anything : Shape Json Json where
  root a := .ok (.atom a)
  atom a := .ok (.atom a)
  list _ := .ok .list
  object members := .ofMembers members
  nest x := x

/-- Read any value. -/
def parse (text : String) : Except ReadError Json :=
  anything.read text.toList

end ScopedCss.Json
