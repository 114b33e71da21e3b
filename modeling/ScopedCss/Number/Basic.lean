/-
# Numbers

The numbers of a style are those of the binary64 format.  Every finite one is a whole multiple of
`2 ^ -1074`, so a finite number is kept as that multiple: no exponent field is needed, two numbers
are equal when their multiples are, and every question about them is one about natural numbers.

`Format.round` takes a ratio to the nearest number of a format, a tie going to the even neighbour.
The format is a parameter because descriptions may also hold numbers that were rounded to binary32
before they were widened.
-/

namespace ScopedCss

-- Powers are those of `Nat.pow`, whichever other instances are in scope.  A literal exponent needs
-- its type, or a default would choose the instance.
attribute [local instance (high)] instPowNat

/-- A binary floating-point format: how many bits a significand has, how many halvings make the
finest unit out of one, and how many bits a multiple of that unit may have at most. -/
structure Format where
  precision : Nat
  scale : Nat
  width : Nat

namespace Format

/-- The 64-bit format. -/
def binary64 : Format := ⟨53, 1074, 2098⟩

/-- The 32-bit format. -/
def binary32 : Format := ⟨24, 149, 277⟩

variable (format : Format)

/-- The distance, in finest units, between neighbouring numbers of the size of `units`. -/
def spacing (units : Nat) : Nat :=
  2 ^ (Nat.log2 units + 1 - format.precision)

/-- Whether so many finest units are a number of the format. -/
def Holds (units : Nat) : Prop :=
  units < 2 ^ format.width ∧ units % format.spacing units = 0

instance (units : Nat) : Decidable (format.Holds units) :=
  inferInstanceAs (Decidable (_ ∧ _))

end Format

/-- The whole number nearest to a quotient; a tie goes to the even one. -/
def roundDiv (num den : Nat) : Nat :=
  let whole := num / den
  let rest := num % den
  if 2 * rest < den ∨ (2 * rest = den ∧ whole % 2 = 0) then whole else whole + 1

/-- The finest units of the number nearest to `num / den`, with no regard to the greatest number of
the format. -/
def Format.round (format : Format) (num den : Nat) : Nat :=
  let exact := num * 2 ^ format.scale
  let step := format.spacing (exact / den)
  roundDiv exact (den * step) * step

/-- A finite number: a sign and a multiple of `2 ^ -1074`.  Zero has both signs. -/
structure Number.Finite where
  negative : Bool
  units : Nat
  holds : Format.binary64.Holds units
deriving DecidableEq

/-- A number of the 64-bit format. -/
inductive Number where
  | nan
  | infinite (negative : Bool)
  | finite (x : Number.Finite)
deriving DecidableEq

namespace Number

/-- The number with the given sign and multiple of the finest unit; past the greatest finite number
it is infinite. -/
def ofUnits (negative : Bool) (units : Nat) : Number :=
  if holds : Format.binary64.Holds units then .finite ⟨negative, units, holds⟩
  else .infinite negative

/-- The number nearest to a ratio. -/
def ofRatio (negative : Bool) (num den : Nat) : Number :=
  ofUnits negative (Format.binary64.round num den)

/-- The number nearest to a ratio in the 32-bit format, widened. -/
def ofRatio32 (negative : Bool) (num den : Nat) : Number :=
  let format := Format.binary32
  let units := format.round num den
  if format.Holds units then
    ofUnits negative (units * 2 ^ (Format.binary64.scale - format.scale))
  else .infinite negative

/-- The number nearest to an integer. -/
def ofInt (n : Int) : Number :=
  ofRatio (n < 0) n.natAbs 1

/-- Zero with the given sign. -/
def zero (negative : Bool) : Number :=
  ofUnits negative 0

/-- Whether a number is neither infinite nor the undefined value. -/
def isFinite : Number → Bool
  | .finite _ => true
  | _ => false

/-- A number that is finite, as such. -/
def finite? : Number → Option Finite
  | .finite x => some x
  | _ => none

/-- Equality of values: the two zeros are equal, and the undefined value equals nothing. -/
def same : Number → Number → Bool
  | .finite x, .finite y => x.units == y.units && (x.negative == y.negative || x.units == 0)
  | .infinite a, .infinite b => a == b
  | _, _ => false

end Number

namespace Number.Finite

/-- The product of two numbers, rounded. -/
def mul (x y : Finite) : Number :=
  Number.ofRatio (x.negative != y.negative) (x.units * y.units)
    (2 ^ (2 * Format.binary64.scale))

/-- The quotient of two numbers, rounded.  The divisor is not zero where this is used. -/
def div (x y : Finite) : Number :=
  Number.ofRatio (x.negative != y.negative) x.units y.units

/-- The integer a number is, if it is one of magnitude below `10 ^ 15`. -/
def smallInteger? (x : Finite) : Option Int :=
  let one := 2 ^ Format.binary64.scale
  if x.units % one = 0 ∧ x.units < 10 ^ (15 : Nat) * one then
    let n : Int := (x.units / one : Nat)
    some (if x.negative then -n else n)
  else none

end Number.Finite

end ScopedCss
