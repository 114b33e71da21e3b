/-
# Layout of numbers

How digits and a leading power of ten become text: plainly with a decimal point, padded with zeros
where needed, or with an exponent.  Where the plain form ends is a decision of each output, so it is
a value, a `Layout`, and there are two of them: the one of styles and the one of diagnostics.
-/

import ScopedCss.Number.Decimal

namespace ScopedCss

/-- The decisions of one way to write numbers: which of two equally near decimals is written, the
leading powers of ten between which a number is written plainly, what follows a number without a
fraction, and whether the sign of zero shows. -/
structure Layout where
  tie : Tie
  least : Int
  greatest : Int
  wholeMark : List Char
  signsZero : Bool

namespace Layout

/-- Numbers in CSS and in the JSON form of a style: plain from `1e-6` up to below `1e+21`. -/
def style : Layout := ⟨.greater, -6, 20, [], false⟩

/-- Numbers in JSON values and diagnostics: plain from `1e-5` up to below `1e+16`, and always with a
point or an exponent. -/
def diagnostic : Layout := ⟨.even, -5, 15, ['.', '0'], true⟩

/-- A number in plain form: the point stands `point` places after the first digit's left edge. -/
def plain (layout : Layout) (digits : List Char) (point : Int) : List Char :=
  if digits.length ≤ point then
    digits ++ List.replicate (point.toNat - digits.length) '0' ++ layout.wholeMark
  else if 0 < point then
    digits.take point.toNat ++ '.' :: digits.drop point.toNat
  else
    '0' :: '.' :: (List.replicate (-point).toNat '0' ++ digits)

/-- A number with an exponent: one digit, the others after a point, and the power with its sign. -/
def scientific (digits : List Char) (magnitude : Int) : List Char :=
  let fraction := match digits.drop 1 with
    | [] => []
    | rest => '.' :: rest
  digits.take 1 ++ fraction ++
    'e' :: (if magnitude < 0 then '-' else '+') :: Numeral.decimal magnitude.natAbs

/-- The text of a positive decimal with the given digits, the first of which has the power of ten
`magnitude`. -/
def write (layout : Layout) (digits : List Char) (magnitude : Int) : List Char :=
  if layout.least ≤ magnitude ∧ magnitude ≤ layout.greatest then
    layout.plain digits (magnitude + 1)
  else scientific digits magnitude

/-- The text of a finite number. -/
def finite (layout : Layout) (x : Number.Finite) : List Char :=
  let sign := if x.negative && (x.units != 0 || layout.signsZero) then ['-'] else []
  let shortest := x.shortest layout.tie
  sign ++ layout.write shortest.digits shortest.magnitude

end Layout

namespace Number

/-- The text of a number as it appears in CSS. -/
def text : Number → List Char
  | .nan => ['N', 'a', 'N']
  | .infinite negative =>
    (if negative then ['-'] else []) ++ ['I', 'n', 'f', 'i', 'n', 'i', 't', 'y']
  | .finite x => Layout.style.finite x

/-- The text of a number in the JSON form of a style.  Integers of magnitude below `10 ^ 15` are
written as such; a number that is not finite has no JSON form and becomes `null`. -/
def json : Number → List Char
  | .finite x =>
    match x.smallInteger? with
    | some n => Numeral.signedDecimal n
    | none => Layout.style.finite x
  | _ => ['n', 'u', 'l', 'l']

end Number

end ScopedCss
