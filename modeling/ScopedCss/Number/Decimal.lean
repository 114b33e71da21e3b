/-
# Shortest decimals

The decimal written for a finite number is the one with the fewest digits among those that read
back as the same number.  For each count of digits there are at most two candidates, the
neighbours of the number on the decimal grid of that fineness; the first grid with a candidate that
reads back wins, and of two such candidates the nearer.  Which of two equally near ones is taken is
a convention of each output, a `Tie`.  Everything is decided in natural numbers.
-/

import ScopedCss.Number.Basic
import ScopedCss.Text.Numeral

namespace ScopedCss

-- Powers are those of `Nat.pow`, whichever other instances are in scope.  A literal exponent needs
-- its type, or a default would choose the instance.
attribute [local instance (high)] instPowNat

/-- A decimal: `coefficient * 10 ^ exponent`. -/
structure Decimal where
  coefficient : Nat
  exponent : Int
deriving DecidableEq, Repr

namespace Decimal

/-- A power of ten as a ratio of two natural numbers, one of which is one. -/
def powerOfTen (exponent : Int) : Nat × Nat :=
  (10 ^ exponent.toNat, 10 ^ (-exponent).toNat)

/-- The value of a decimal as a ratio. -/
def ratio (d : Decimal) : Nat × Nat :=
  let power := powerOfTen d.exponent
  (d.coefficient * power.1, power.2)

/-- Move the trailing zeros of the coefficient into the exponent. -/
def strip (d : Decimal) : Decimal :=
  if d.coefficient ≠ 0 ∧ d.coefficient % 10 = 0 then
    strip ⟨d.coefficient / 10, d.exponent + 1⟩
  else d
termination_by d.coefficient
decreasing_by
  rename_i h
  exact Nat.div_lt_self (by omega) (by decide)

/-- The digits of the coefficient. -/
def digits (d : Decimal) : List Char :=
  Numeral.decimal d.coefficient

/-- The power of ten of the leading digit. -/
def magnitude (d : Decimal) : Int :=
  d.exponent + (d.digits.length - 1 : Nat)

end Decimal

/-- The power of ten of the leading digit of a positive ratio. -/
def leadingPower (num den : Nat) : Int :=
  if den ≤ num then (Numeral.digitCount (num / den) - 1 : Nat)
  else -(Numeral.digitCount ((den + num - 1) / num - 1) : Nat)

/-- Which of two equally near decimals is taken: the greater one, or the one whose last digit is
even. -/
inductive Tie where
  | greater
  | even
deriving DecidableEq, Repr

/-- Whether a tie between a coefficient and the next one goes to the smaller of the two. -/
def Tie.takesBelow : Tie → Nat → Bool
  | .greater, _ => false
  | .even, below => below % 2 == 0

namespace Number.Finite

/-- The distance to the next smaller number, in quarters of the spacing: half as far below a power
of two as elsewhere. -/
def quartersBelow (x : Finite) : Nat :=
  let step := Format.binary64.spacing x.units
  if 1 < step ∧ x.units = 2 ^ (52 : Nat) * step then step else 2 * step

/-- Whether a decimal `coefficient * num / den` reads back as the magnitude of `x`: it lies no
farther than half way to either neighbour, the half way points included when the significand is
even. -/
def readsBack (x : Finite) (coefficient num den : Nat) : Bool :=
  let step := Format.binary64.spacing x.units
  let value := 4 * coefficient * num * 2 ^ Format.binary64.scale
  let low := (4 * x.units - x.quartersBelow) * den
  let high := (4 * x.units + 2 * step) * den
  if x.units / step % 2 = 0 then low ≤ value && value ≤ high
  else low < value && value < high

/-- The multiple of `10 ^ exponent` next to the magnitude of `x` that reads back, if there is one;
the nearer of two. -/
def candidate? (x : Finite) (tie : Tie) (exponent : Int) : Option Nat :=
  let power := Decimal.powerOfTen exponent
  let exact := x.units * power.2
  let unit := 2 ^ Format.binary64.scale * power.1
  let below := exact / unit
  let rest := exact % unit
  let isNearer := 2 * rest < unit || (2 * rest == unit && tie.takesBelow below)
  let readsBelow := x.readsBack below power.1 power.2
  let readsAbove := x.readsBack (below + 1) power.1 power.2
  if readsBelow && (!readsAbove || isNearer) then some below
  else if readsAbove then some (below + 1)
  else none

/-- Look for a candidate on ever finer grids, from `10 ^ exponent` on.  With the grids used up the
digits of the finest one are taken as they are. -/
def search (x : Finite) (tie : Tie) (exponent : Int) : Nat → Decimal
  | 0 =>
    let power := Decimal.powerOfTen exponent
    ⟨x.units * power.2 / (2 ^ Format.binary64.scale * power.1), exponent⟩
  | finer + 1 =>
    match x.candidate? tie exponent with
    | some coefficient => ⟨coefficient, exponent⟩
    | none => search x tie (exponent - 1) finer

/-- The shortest decimal that reads back as the magnitude of `x`; seventeen digits always do. -/
def shortest (x : Finite) (tie : Tie) : Decimal :=
  if x.units = 0 then ⟨0, 0⟩
  else (x.search tie (leadingPower x.units (2 ^ Format.binary64.scale)) 17).strip

end Number.Finite

namespace Number

/-- The number nearest to a decimal.  A decimal far outside the range of the format is decided by
the place of its leading digit, so no large power of ten is formed for it. -/
def ofDecimal (round : Bool → Nat → Nat → Number) (negative : Bool) (d : Decimal) : Number :=
  if d.coefficient = 0 then zero negative
  else if 310 < d.magnitude then .infinite negative
  else if d.magnitude < -330 then zero negative
  else round negative d.ratio.1 d.ratio.2

end Number

end ScopedCss
