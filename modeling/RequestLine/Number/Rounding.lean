/-! Where a positive rational number begins, in any base, and the integer nearest to it. -/

namespace RequestLine

/-- The place of the leading digit of a positive number: `base ^ place ≤ x < base ^ (place + 1)`.
The logarithms of numerator and denominator leave two places to choose from. -/
def leadingPlace (base : Nat) (log : Nat → Nat) (x : Rat) : Int :=
  let upper : Int := log x.num.toNat - log x.den
  if x < (base : Rat) ^ upper then upper - 1 else upper

/-- The place of the leading binary digit. -/
def leadingBit (x : Rat) : Int :=
  leadingPlace 2 Nat.log2 x

/-- The place of the leading decimal digit. -/
def leadingDigit (x : Rat) : Int :=
  leadingPlace 10 (fun n => (Nat.toDigits 10 n).length - 1) x

/-- The integer nearest to `x`, and the even one of two that are equally near. -/
def roundEven (x : Rat) : Int :=
  let below := x.floor
  let excess := x - below
  if excess < 1 / 2 then below
  else if 1 / 2 < excess then below + 1
  else if below % 2 = 0 then below
  else below + 1

end RequestLine
