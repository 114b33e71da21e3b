/-
# JSON numbers

A number without a fraction and an exponent is an integer if 64 bits hold it, with a sign or
without; every other number is real.

A real number is not rounded once but in steps.  Its digits are gathered into a significand below
`2 ^ 64`; from the first digit of the whole part that does not fit, the rest of that part only
raises the exponent, and from the first digit of the fraction that does not fit, the rest of the
fraction is dropped.  The significand is rounded, then multiplied or divided by a rounded power of
ten; exponents beyond 308 are worked off 308 at a time.  A number that would be infinite is
malformed.
-/

import ScopedCss.Json.Basic
import ScopedCss.Json.Quoted
import ScopedCss.Number.Decimal

namespace ScopedCss.Json

-- Powers are those of `Nat.pow`, whichever other instances are in scope.  A literal exponent needs
-- its type, or a default would choose the instance.
attribute [local instance (high)] instPowNat

/-- The bound of the significand. -/
def significandBound : Nat := 2 ^ (64 : Nat)

/-- A significand and a power of ten while digits are being gathered. -/
structure Gathered where
  significand : Nat
  exponent : Int

/-- The significand with one more digit, if it still fits. -/
def extend? (significand : Nat) (digit : Char) : Option Nat :=
  let n := significand * 10 + (digit.toNat - 48)
  if n < significandBound then some n else none

/-- Gather the digits of a whole part.  Digits past the first that does not fit raise the
exponent. -/
def gatherWhole (significand : Nat) : List Char → Gathered
  | [] => ⟨significand, 0⟩
  | d :: ds =>
    match extend? significand d with
    | some n => gatherWhole n ds
    | none => ⟨significand, ds.length + 1⟩

/-- Gather the digits of a fraction onto a whole part.  Digits past the first that does not fit are
dropped. -/
def gatherFraction (g : Gathered) : List Char → Gathered
  | [] => g
  | d :: ds =>
    match extend? g.significand d with
    | some n => gatherFraction ⟨n, g.exponent - 1⟩ ds
    | none => g

/-- The rounded power of ten, for exponents up to 308. -/
def tenTo (k : Nat) : Number :=
  Number.ofRatio false (10 ^ k) 1

/-- Multiply by a rounded power of ten; nothing if the product is infinite. -/
def raise? (x : Number.Finite) (k : Nat) : Option Number.Finite := do
  (x.mul (← (tenTo k).finite?)).finite?

/-- Divide by a rounded power of ten. -/
def lower? (x : Number.Finite) (k : Nat) : Option Number.Finite := do
  (x.div (← (tenTo k).finite?)).finite?

/-- The greatest power of ten that is used in one step. -/
def greatestStep : Nat := 308

/-- Divide by so many of the greatest powers of ten, which soon leaves nothing. -/
def lowerOften? (x : Number.Finite) : Nat → Option Number.Finite
  | 0 => some x
  | steps + 1 => do
    if x.units = 0 then some x
    else lowerOften? (← lower? x greatestStep) steps

/-- Multiply or divide by a power of ten in rounded steps; nothing if the result is infinite. -/
def scale? (x : Number.Finite) (exponent : Int) : Option Number.Finite := do
  if 0 ≤ exponent then
    if exponent.natAbs ≤ greatestStep then raise? x exponent.natAbs
    else if x.units = 0 then some x
    else none
  else
    let steps := (exponent.natAbs - 1) / greatestStep
    lower? (← lowerOften? x steps) (exponent.natAbs - steps * greatestStep)

/-- The real number of a significand and a power of ten. -/
def realOf? (negative : Bool) (g : Gathered) : Option Number := do
  let x ← (Number.ofInt g.significand).finite?
  let y ← scale? x g.exponent
  some (.finite ⟨negative, y.units, y.holds⟩)

/-- The number of a text without fraction and exponent. -/
def integerOf? (negative : Bool) (whole : List Char) : Option Numeral :=
  let n := Numeral.ofDecimal whole
  if negative then
    if 0 < n ∧ n ≤ 2 ^ (63 : Nat) then some (.integer (-n))
    else (realOf? true (gatherWhole 0 whole)).map .real
  else if n < significandBound then some (.integer n)
  else (realOf? false (gatherWhole 0 whole)).map .real

/-- Digits of which there must be at least one, and the text after them. -/
def readDigits (cs : List Char) : Except Fault (List Char × List Char) :=
  match cs.takeWhile Char.isDigit with
  | [] => .error (if cs = [] then .ended else .malformed)
  | digits => .ok (digits, cs.dropWhile Char.isDigit)

/-- The fraction at the front of a text, if there is one, and the text after it. -/
def readFraction? : List Char → Except Fault (Option (List Char) × List Char)
  | '.' :: cs => do
    let (digits, rest) ← readDigits cs
    .ok (some digits, rest)
  | cs => .ok (none, cs)

/-- The exponent at the front of a text, if there is one, and the text after it. -/
def readPower? : List Char → Except Fault (Option Int × List Char)
  | [] => .ok (none, [])
  | c :: cs =>
    if c = 'e' ∨ c = 'E' then do
      let (negative, unsigned) := match cs with
        | '+' :: rest => (false, rest)
        | '-' :: rest => (true, rest)
        | rest => (false, rest)
      let (digits, rest) ← readDigits unsigned
      let n : Int := Numeral.ofDecimal digits
      .ok (some (if negative then -n else n), rest)
    else .ok (none, c :: cs)

/-- The whole part at the front of a text: a zero alone or digits that do not begin with one. -/
def readWhole (cs : List Char) : Except Fault (List Char × List Char) := do
  let (digits, rest) ← readDigits cs
  if digits.head? = some '0' ∧ 1 < digits.length then .error .malformed
  else .ok (digits, rest)

/-- Read the number at the front of a text, and tell what is left of the text. -/
def readNumeral (cs : List Char) : Except Fault (Numeral × List Char) := do
  let (negative, unsigned) := match cs with
    | '-' :: rest => (true, rest)
    | rest => (false, rest)
  let (whole, afterWhole) ← readWhole unsigned
  let (fraction, afterFraction) ← readFraction? afterWhole
  let (power, rest) ← readPower? afterFraction
  let read :=
    if fraction.isNone && power.isNone then integerOf? negative whole
    else
      let g := gatherFraction (gatherWhole 0 whole) (fraction.getD [])
      (realOf? negative ⟨g.significand, g.exponent + power.getD 0⟩).map .real
  match read with
  | some n => .ok (n, rest)
  | none => .error .malformed

end ScopedCss.Json
