/-
# Code units

How long a text is in the two encodings in which it is measured: UTF-16 units feed the digest,
UTF-8 bytes set widths and lower bounds on lengths.
-/

namespace ScopedCss.Text

-- Sums begin with the numeral `0`, whichever other instances are in scope.
attribute [local instance (high)] Zero.ofOfNat0

/-- The UTF-16 units of one character: itself, or a surrogate pair above the basic plane. -/
def unitsOf (c : Char) : List Nat :=
  let n := c.toNat
  if n < 0x10000 then [n]
  else [0xD800 + (n - 0x10000) / 0x400, 0xDC00 + (n - 0x10000) % 0x400]

/-- The UTF-16 units of a text. -/
def units (cs : List Char) : List Nat :=
  cs.flatMap unitsOf

/-- The number of bytes of a text in UTF-8. -/
def byteLength (cs : List Char) : Nat :=
  (cs.map Char.utf8Size).sum

@[simp] theorem units_append (s t : List Char) : units (s ++ t) = units s ++ units t := by
  simp [units]

@[simp] theorem byteLength_append (s t : List Char) :
    byteLength (s ++ t) = byteLength s + byteLength t := by
  simp [byteLength]

end ScopedCss.Text
