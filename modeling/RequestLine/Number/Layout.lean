import RequestLine.Number.Decimal

/-!
How numbers are written: an integer by its digits, a binary64 number by its shortest digits,
plainly or in scientific notation.
-/

namespace RequestLine

def integerText (n : Int) : List Char :=
  (if n < 0 then ['-'] else []) ++ Nat.toDigits 10 n.natAbs

/-- The choices of a way to write binary64 numbers. -/
structure Layout where
  /-- The least place of a leading digit that is written plainly. -/
  plainFrom : Int
  /-- The least place above it that is not. -/
  plainBelow : Int
  /-- What follows the plain digits of a number without a fraction. -/
  wholeEnding : String
  tie : Tie

namespace Layout

def zeros (count : Nat) : List Char :=
  List.replicate count '0'

/-- The digits with the point where it belongs, and with zeros up to it. -/
def plain (layout : Layout) (digits : List Char) (place : Int) : List Char :=
  let before := digits.length + place
  if 0 ≤ place then
    digits ++ zeros place.toNat ++ layout.wholeEnding.toList
  else if 0 < before then
    digits.take before.toNat ++ '.' :: digits.drop before.toNat
  else
    '0' :: '.' :: zeros (-before).toNat ++ digits

/-- One digit, the others after a point, and the exponent with its sign. -/
def scientific (digits : List Char) (exponent : Int) : List Char :=
  let point := if digits.length ≤ 1 then [] else ['.']
  let sign := if exponent < 0 then '-' else '+'
  digits.take 1 ++ point ++ digits.drop 1 ++ 'e' :: sign :: Nat.toDigits 10 exponent.natAbs

def decimal (layout : Layout) (number : Decimal) : List Char :=
  let digits := Nat.toDigits 10 number.digits
  let leading := number.place + digits.length - 1
  if layout.plainFrom ≤ leading ∧ leading < layout.plainBelow then
    layout.plain digits number.place
  else
    scientific digits leading

def write (layout : Layout) (x : Binary64) : List Char :=
  let sign := if x.negative then ['-'] else []
  if x.isZero then
    sign ++ '0' :: layout.wholeEnding.toList
  else
    sign ++ layout.decimal (Decimal.shortest layout.tie x.abs)

end Layout
end RequestLine
