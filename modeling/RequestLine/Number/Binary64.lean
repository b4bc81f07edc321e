import RequestLine.Number.Rounding

/-!
The finite numbers of IEEE 754's binary64 format, as exact data.  Arithmetic is that of the
rational numbers with one rounding at the end.
-/

namespace RequestLine

namespace Binary64

/-- The least mantissa of 53 bits, `2 ^ 52`. -/
def leadingUnit : Nat := 0x10000000000000

/-- The pairs that stand for a magnitude `mantissa * 2 ^ exponent`.  A mantissa of less than 53
bits goes with the least exponent only, so that no magnitude has two pairs. -/
def Canonical (mantissa : Nat) (exponent : Int) : Prop :=
  mantissa < 2 * leadingUnit ∧ -1074 ≤ exponent ∧ exponent ≤ 971 ∧
    (leadingUnit ≤ mantissa ∨ exponent = -1074)

instance (mantissa : Nat) (exponent : Int) : Decidable (Canonical mantissa exponent) :=
  inferInstanceAs (Decidable (_ ∧ _))

end Binary64

/-- A finite binary64 number.  Zero has both signs. -/
structure Binary64 where
  negative : Bool
  mantissa : Nat
  exponent : Int
  canonical : Binary64.Canonical mantissa exponent
deriving DecidableEq

namespace Binary64

/-- The absolute value. -/
def magnitude (x : Binary64) : Rat :=
  x.mantissa * 2 ^ x.exponent

def value (x : Binary64) : Rat :=
  if x.negative then -x.magnitude else x.magnitude

def zero : Binary64 :=
  ⟨false, 0, -1074, by decide⟩

instance : Inhabited Binary64 := ⟨zero⟩

def isZero (x : Binary64) : Bool :=
  x.mantissa == 0

def neg (x : Binary64) : Binary64 :=
  { x with negative := !x.negative }

def abs (x : Binary64) : Binary64 :=
  { x with negative := false }

def ofParts? (mantissa : Nat) (exponent : Int) : Option Binary64 :=
  if canonical : Canonical mantissa exponent then
    some ⟨false, mantissa, exponent, canonical⟩
  else
    none

/-- The binary64 number nearest to `x ≥ 0`, with the even mantissa of two equally near, and none
where that number would be infinite. -/
def nearest? (x : Rat) : Option Binary64 :=
  if x = 0 then
    some zero
  else
    let exponent := max (-1074) (leadingBit x - 52)
    let mantissa := (roundEven (x / 2 ^ exponent)).toNat
    if mantissa = 2 * leadingUnit then ofParts? leadingUnit (exponent + 1)
    else ofParts? mantissa exponent

/-- The product of two magnitudes, rounded. -/
def mul? (x y : Binary64) : Option Binary64 :=
  nearest? (x.magnitude * y.magnitude)

/-- The quotient of two magnitudes, rounded; the second is not zero. -/
def div? (x y : Binary64) : Option Binary64 :=
  nearest? (x.magnitude / y.magnitude)

end Binary64
end RequestLine
