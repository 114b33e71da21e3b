/-
# Quoted JSON strings

A string is written between double quotes.  Quote, backslash and the controls below the space are
escaped, five of the controls by a letter; every other character stands for itself.

Reading accepts all escapes of the format.  An escape of four hexadecimal digits that is one half of
a surrogate pair needs the other half next to it.  What cannot be read tells whether the text ended
too early or is malformed.
-/

import ScopedCss.Text.Numeral
import ScopedCss.Text.Units

namespace ScopedCss.Json

/-- Why a text is not what was looked for. -/
inductive Fault where
  | ended
  | malformed
deriving DecidableEq, Repr

/-- One character in a quoted string. -/
def escape (c : Char) : List Char :=
  if c = '"' then ['\\', '"']
  else if c = '\\' then ['\\', '\\']
  else if c = '\x08' then ['\\', 'b']
  else if c = '\t' then ['\\', 't']
  else if c = '\n' then ['\\', 'n']
  else if c = '\x0c' then ['\\', 'f']
  else if c = '\r' then ['\\', 'r']
  else if c.toNat < 0x20 then
    ['\\', 'u', '0', '0', Numeral.digitChar (c.toNat / 16), Numeral.digitChar (c.toNat % 16)]
  else [c]

/-- A text as a quoted string. -/
def quote (cs : List Char) : List Char :=
  '"' :: (cs.flatMap escape ++ ['"'])

/-- The number that four hexadecimal digits write. -/
def hex4? (a b c d : Char) : Option Nat := do
  let a ← Numeral.hexValue? a
  let b ← Numeral.hexValue? b
  let c ← Numeral.hexValue? c
  let d ← Numeral.hexValue? d
  pure (((a * 16 + b) * 16 + c) * 16 + d)

/-- The character of an escape by a letter. -/
def letterEscape? : Char → Option Char
  | '"' => some '"'
  | '\\' => some '\\'
  | '/' => some '/'
  | 'b' => some '\x08'
  | 'f' => some '\x0c'
  | 'n' => some '\n'
  | 'r' => some '\r'
  | 't' => some '\t'
  | _ => none

/-- Read the four hexadecimal digits at the front of a text.  Fewer than four bytes are a text that
ended too early. -/
def readHex4 (cs : List Char) : Except Fault Nat :=
  if Text.byteLength cs < 4 then .error .ended
  else
    match cs with
    | a :: b :: c :: d :: _ =>
      match hex4? a b c d with
      | some n => .ok n
      | none => .error .malformed
    | _ => .error .malformed

/-- Whether a code is the first half of a surrogate pair. -/
def isLeading (n : Nat) : Bool := 0xD800 ≤ n && n ≤ 0xDBFF

/-- Whether a code is the second half of a surrogate pair. -/
def isTrailing (n : Nat) : Bool := 0xDC00 ≤ n && n ≤ 0xDFFF

/-- Read what follows the letter of a hexadecimal escape: the character, and how many characters of
the text it takes. -/
def readHexEscape (cs : List Char) : Except Fault (Char × Nat) := do
  let first ← readHex4 cs
  if isTrailing first then .error .malformed
  else if isLeading first then
    match cs.drop 4 with
    | [] => .error .ended
    | ['\\'] => .error .ended
    | '\\' :: 'u' :: more =>
      let second ← readHex4 more
      if isTrailing second then
        .ok (Char.ofNat (0x10000 + (first - 0xD800) * 0x400 + (second - 0xDC00)), 10)
      else .error .malformed
    | _ => .error .malformed
  else .ok (Char.ofNat first, 4)

/-- Read what follows the backslash of an escape: the character, and how many characters of the text
it takes. -/
def readEscape : List Char → Except Fault (Char × Nat)
  | [] => .error .ended
  | 'u' :: cs => do
    let (c, n) ← readHexEscape cs
    .ok (c, n + 1)
  | e :: _ =>
    match letterEscape? e with
    | some c => .ok (c, 1)
    | none => .error .malformed

/-- Read a string after its opening quote: its characters, and how many characters of the text it
takes together with its closing quote.  The first `skip` characters belong to an escape that was
read already. -/
def readQuoted (skip : Nat) : List Char → Except Fault (List Char × Nat)
  | [] => .error .ended
  | c :: cs =>
    match skip with
    | skip + 1 => do
      let (text, n) ← readQuoted skip cs
      .ok (text, n + 1)
    | 0 =>
      if c = '"' then .ok ([], 1)
      else if c = '\\' then do
        let (d, taken) ← readEscape cs
        let (text, n) ← readQuoted taken cs
        .ok (d :: text, n + 1)
      else if c.toNat < 0x20 then .error .malformed
      else do
        let (text, n) ← readQuoted 0 cs
        .ok (c :: text, n + 1)

end ScopedCss.Json
