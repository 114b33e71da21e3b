/-
# Number literals

Reading the text of a number: decimal digits with a point and an exponent, or one of the words for
the values that are not finite.  The number is the one nearest to the decimal, rounded once.
-/

import ScopedCss.Number.Decimal

namespace ScopedCss.Number

/-- The sign of a text and what follows it. -/
def readSign : List Char → Bool × List Char
  | '-' :: cs => (true, cs)
  | '+' :: cs => (false, cs)
  | cs => (false, cs)

/-- The exponent that makes up the whole of a text; no text at all stands for zero. -/
def readExponent? : List Char → Option Int
  | [] => some 0
  | mark :: cs =>
    let signed := readSign cs
    if (mark = 'e' ∨ mark = 'E') ∧ signed.2 ≠ [] ∧ signed.2.all Char.isDigit = true then
      let n : Int := Numeral.ofDecimal signed.2
      some (if signed.1 then -n else n)
    else none

/-- The decimal written by an unsigned text. -/
def readDecimal? (cs : List Char) : Option Decimal :=
  let whole := cs.takeWhile Char.isDigit
  let parts := match cs.dropWhile Char.isDigit with
    | '.' :: rest => (rest.takeWhile Char.isDigit, rest.dropWhile Char.isDigit)
    | rest => ([], rest)
  if whole = [] ∧ parts.1 = [] then none
  else
    (readExponent? parts.2).map fun exponent =>
      ⟨Numeral.ofDecimal (whole ++ parts.1), exponent - parts.1.length⟩

/-- The number written by a text, where `round` takes a ratio to a number. -/
def ofLiteral? (round : Bool → Nat → Nat → Number) (text : String) : Option Number :=
  let signed := readSign text.toList
  let word := String.ofList (signed.2.map Char.toLower)
  if word = "nan" then some .nan
  else if word = "inf" ∨ word = "infinity" then some (.infinite signed.1)
  else (readDecimal? signed.2).map (ofDecimal round signed.1)

end ScopedCss.Number
