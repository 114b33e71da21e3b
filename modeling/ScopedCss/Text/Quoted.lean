/-
# Quoted text in diagnostics

A diagnostic shows a text between double quotes.  Quote and backslash, and the four controls that
have a letter, are escaped by a backslash; every other character that may not stand for itself is
written as its hexadecimal code in braces.
-/

import ScopedCss.Text.Numeral
import ScopedCss.Text.Printable

namespace ScopedCss.Text

/-- One character of a quoted text. -/
def showChar (c : Char) : List Char :=
  if c = '"' then ['\\', '"']
  else if c = '\\' then ['\\', '\\']
  else if c = '\x00' then ['\\', '0']
  else if c = '\t' then ['\\', 't']
  else if c = '\n' then ['\\', 'n']
  else if c = '\r' then ['\\', 'r']
  else if isPrintable c then [c]
  else '\\' :: 'u' :: '\x7b' :: (Numeral.digits 16 c.toNat ++ ['\x7d'])

/-- A text between double quotes. -/
def quoted (s : String) : String :=
  String.ofList ('"' :: (s.toList.flatMap showChar ++ ['"']))

end ScopedCss.Text
