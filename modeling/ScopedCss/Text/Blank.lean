/-
# Blank text

The characters with the Unicode property White_Space, and the trimming that uses them.  CSS has a
smaller class of its own, which belongs to the CSS lexemes and not here.
-/

namespace ScopedCss.Text

/-- Whether a character has the Unicode property White_Space. -/
def isBlank (c : Char) : Bool :=
  let n := c.toNat
  (9 ≤ n && n ≤ 13) || n == 0x20 || n == 0x85 || n == 0xA0 || n == 0x1680 ||
    (0x2000 ≤ n && n ≤ 0x200A) || n == 0x2028 || n == 0x2029 || n == 0x202F || n == 0x205F ||
    n == 0x3000

/-- Drop the blanks at the front. -/
def trimStart (cs : List Char) : List Char :=
  cs.dropWhile isBlank

/-- Drop the blanks at the back. -/
def trimEnd (cs : List Char) : List Char :=
  (cs.reverse.dropWhile isBlank).reverse

/-- Drop the blanks at both ends. -/
def trim (cs : List Char) : List Char :=
  trimEnd (trimStart cs)

/-- Whether a text has no character but blanks. -/
def isAllBlank (cs : List Char) : Bool :=
  cs.all isBlank

/-- Trim a string at both ends. -/
def trimString (s : String) : String :=
  String.ofList (trim s.toList)

end ScopedCss.Text
