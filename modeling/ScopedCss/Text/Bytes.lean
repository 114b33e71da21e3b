/-
# Bytes

Texts as bytes in UTF-8, and bytes as pairs of hexadecimal digits.
-/

import ScopedCss.Text.Numeral

namespace ScopedCss.Text

/-- The bytes of a text in UTF-8. -/
def bytes (cs : List Char) : List UInt8 :=
  cs.flatMap String.utf8EncodeChar

/-- The text that bytes are in UTF-8, if they are one. -/
def ofBytes? (bytes : List UInt8) : Option String :=
  String.fromUTF8? ⟨bytes.toArray⟩

/-- Bytes as pairs of hexadecimal digits. -/
def hex (bytes : List UInt8) : List Char :=
  bytes.flatMap fun b => [Numeral.digitChar (b.toNat / 16), Numeral.digitChar (b.toNat % 16)]

/-- The bytes that pairs of hexadecimal digits write. -/
def ofHex? : List Char → Option (List UInt8)
  | [] => some []
  | [_] => none
  | a :: b :: cs => do
    let a ← Numeral.hexValue? a
    let b ← Numeral.hexValue? b
    let rest ← ofHex? cs
    pure (UInt8.ofNat (a * 16 + b) :: rest)

@[simp] theorem bytes_append (s t : List Char) : bytes (s ++ t) = bytes s ++ bytes t := by
  simp [bytes]

end ScopedCss.Text
