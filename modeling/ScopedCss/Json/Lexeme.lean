/-
# JSON lexemes

A JSON text is first read as a sequence of lexemes.  Where the text goes wrong the sequence ends
with a `broken` lexeme, which keeps why, and whether it began like a string; so a reader that stops
earlier never learns of it.
-/

import ScopedCss.Json.Numeral

namespace ScopedCss.Json

/-- A lexeme of a JSON text. -/
inductive Lexeme where
  | openObject
  | closeObject
  | openList
  | closeList
  | colon
  | comma
  | atom (a : Atom)
  | broken (quoted : Bool) (fault : Fault)
deriving DecidableEq

/-- The white space of JSON. -/
def isSpace (c : Char) : Bool :=
  c == ' ' || c == '\n' || c == '\t' || c == '\r'

/-- Compare the front of a text with the rest of a fixed word. -/
def readWord : List Char → List Char → Except Fault Unit
  | [], _ => .ok ()
  | _ :: _, [] => .error .ended
  | w :: ws, c :: cs => if w = c then readWord ws cs else .error .malformed

/-- The lexeme that begins with `c`, which is not white space, and how many more characters it
takes. -/
def scan (c : Char) (cs : List Char) : Except Fault (Lexeme × Nat) :=
  match c with
  | '\x7b' => .ok (.openObject, 0)
  | '\x7d' => .ok (.closeObject, 0)
  | '[' => .ok (.openList, 0)
  | ']' => .ok (.closeList, 0)
  | ':' => .ok (.colon, 0)
  | ',' => .ok (.comma, 0)
  | 'n' => do
    readWord ['u', 'l', 'l'] cs
    .ok (.atom .null, 3)
  | 't' => do
    readWord ['r', 'u', 'e'] cs
    .ok (.atom (.bool true), 3)
  | 'f' => do
    readWord ['a', 'l', 's', 'e'] cs
    .ok (.atom (.bool false), 4)
  | '"' => do
    let (text, taken) ← readQuoted 0 cs
    .ok (.atom (.text (String.ofList text)), taken)
  | _ =>
    if c = '-' ∨ c.isDigit = true then do
      let (n, rest) ← readNumeral (c :: cs)
      .ok (.atom (.numeral n), cs.length - rest.length)
    else .error .malformed

/-- The lexemes of a text. -/
def lex : List Char → List Lexeme
  | [] => []
  | c :: cs =>
    if isSpace c then lex cs
    else
      match scan c cs with
      | .ok (lexeme, taken) => lexeme :: lex (cs.drop taken)
      | .error fault => [.broken (c == '"') fault]
termination_by cs => cs.length
decreasing_by all_goals simp only [List.length_drop, List.length_cons]; omega

end ScopedCss.Json
