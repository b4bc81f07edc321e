import RequestLine.Json.Basic

/-!
Numbers in JSON text.  `Numeral.read?` takes a numeral apart, and `Numeral.value?` says which
number it is: an integer where its form and its size allow that, else a binary64 number found
with one rounded operation on the leading digits, not always the nearest one.
-/

namespace RequestLine

/-- A numeral, by its digits.  One without a point has no fraction digits. -/
structure Numeral where
  negative : Bool
  whole : List Char
  fraction : List Char
  exponent : Option Int
deriving DecidableEq, Repr

namespace Numeral

/-- The digits at the front of a text, at least one, and what follows them. -/
def digits? (text : List Char) : Option (List Char × List Char) :=
  match text.takeWhile Char.isDigit with
  | [] => none
  | digits => some (digits, text.dropWhile Char.isDigit)

/-- Only the number zero begins with the digit zero. -/
def whole? (text : List Char) : Option (List Char × List Char) := do
  let (digits, rest) ← digits? text
  if digits.head? = some '0' ∧ digits.length ≠ 1 then none else some (digits, rest)

def fraction? : List Char → Option (List Char × List Char)
  | '.' :: rest => digits? rest
  | rest => some ([], rest)

def natOfDigits (digits : List Char) : Nat :=
  Nat.ofDigitChars 10 digits 0

/-- The exponent after its letter. -/
def signedExponent? : List Char → Option (Int × List Char)
  | '-' :: rest => (digits? rest).map fun (digits, rest) => (-natOfDigits digits, rest)
  | '+' :: rest => (digits? rest).map fun (digits, rest) => (natOfDigits digits, rest)
  | rest => (digits? rest).map fun (digits, rest) => (natOfDigits digits, rest)

def exponent? : List Char → Option (Option Int × List Char)
  | 'e' :: rest | 'E' :: rest =>
      (signedExponent? rest).map fun (exponent, rest) => (some exponent, rest)
  | rest => some (none, rest)

/-- The numeral at the front of a text, and what follows it. -/
def read? (text : List Char) : Option (Numeral × List Char) := do
  let (negative, unsigned) := match text with
    | '-' :: rest => (true, rest)
    | rest => (false, rest)
  let (whole, rest) ← whole? unsigned
  let (fraction, rest) ← fraction? rest
  let (exponent, rest) ← exponent? rest
  return ({ negative, whole, fraction, exponent }, rest)

/-- Appends digits to a number as long as it stays in 64 bits, and returns the digits from the
first that would carry it beyond. -/
def appendFitting (significand : Nat) : List Char → Nat × List Char
  | [] => (significand, [])
  | digit :: rest =>
      let next := Nat.ofDigitChars 10 [digit] significand
      if next < UInt64.size then appendFitting next rest else (significand, digit :: rest)

/-- The binary64 number nearest to a power of ten. -/
def powerOfTen? (exponent : Nat) : Option Binary64 :=
  Binary64.nearest? (10 ^ exponent)

/-- The largest power of ten that one operation multiplies or divides by. -/
def largestPower : Nat := 308

/-- `x * 10 ^ exponent`, by one rounded operation, or by two where the exponent is below that of
the largest power; none where the result would be infinite.  Below twice that exponent a
significand leaves zero. -/
def scale? (x : Binary64) (exponent : Int) : Option Binary64 := do
  if 0 ≤ exponent then
    if exponent ≤ largestPower then
      x.mul? (← powerOfTen? exponent.toNat)
    else if x.isZero then
      return x
    else
      none
  else
    let places := exponent.natAbs
    if places ≤ largestPower then
      x.div? (← powerOfTen? places)
    else if places ≤ 2 * largestPower then
      let shifted ← x.div? (← powerOfTen? largestPower)
      shifted.div? (← powerOfTen? (places - largestPower))
    else
      return .zero

/-- The significand and the power of ten.  A digit of the whole part that does not fit counts as
a zero, a digit of the fraction that does not fit as nothing. -/
def scientific (numeral : Numeral) : Nat × Int :=
  let (whole, dropped) := appendFitting 0 numeral.whole
  let (significand, left) := appendFitting whole numeral.fraction
  let kept : Int := numeral.fraction.length - left.length
  (significand, dropped.length - kept + numeral.exponent.getD 0)

/-- The numeral as a binary64 number.  Zero keeps the sign. -/
def real? (numeral : Numeral) : Option Binary64 := do
  let (significand, exponent) := numeral.scientific
  let unsigned ← scale? (← Binary64.nearest? significand) exponent
  return if numeral.negative then unsigned.neg else unsigned

/-- The numeral as an integer, if it is written as one and lies between `-2 ^ 63` and
`2 ^ 64 - 1`.  A negative zero is none. -/
def integer? (numeral : Numeral) : Option Int :=
  let magnitude := natOfDigits numeral.whole
  if numeral.fraction ≠ [] ∨ numeral.exponent.isSome then none
  else if numeral.negative then
    if 0 < magnitude ∧ magnitude ≤ UInt64.size / 2 then some (-magnitude) else none
  else
    if magnitude < UInt64.size then some magnitude else none

def value? (numeral : Numeral) : Option Json :=
  match numeral.integer? with
  | some value => some (.integer value)
  | none => numeral.real?.map .real

end Numeral
end RequestLine
