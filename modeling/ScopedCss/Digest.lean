/-
# Style digests

A style is known by a short name derived from its text: a rolling polynomial over UTF-16 units,
kept in the signed 32-bit range, whose magnitude is written in base 36.  The digest depends on the
order of the units and makes no attempt to keep texts apart that collide.
-/

import ScopedCss.Text.Numeral
import ScopedCss.Text.Units

namespace ScopedCss.Digest

-- Powers are those of `Nat.pow`, whichever other instances are in scope.  A literal exponent needs
-- its type, or a default would choose the instance.
attribute [local instance (high)] instPowNat

/-- One step of the rolling value: the representative of `31 * h + unit` in `[-2^31, 2^31)`. -/
def roll (h : Int) (unit : Nat) : Int :=
  (31 * h + unit).bmod (2 ^ (32 : Nat))

/-- The rolling value of a sequence of units. -/
def rolling (units : List Nat) : Int :=
  units.foldl roll 0

/-- The digest of a text. -/
def ofText (text : String) : String :=
  String.ofList (Numeral.digits 36 (rolling (Text.units text.toList)).natAbs)

/-- The checksum of final CSS is the digest of its text. -/
def checksum (css : String) : String :=
  ofText css

/-- What every class name begins with. -/
def classMark : String := "zc-"

/-- The class name of a style with the given id. -/
def className (id : String) : String :=
  classMark ++ id

/-- The class name of a text that is its own identity. -/
def classNameOfText (text : String) : String :=
  className (ofText text)

theorem rolling_append (s t : List Nat) : rolling (s ++ t) = t.foldl roll (rolling s) := by
  simp [rolling]

end ScopedCss.Digest
