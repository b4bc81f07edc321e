import RequestLine.Number.Binary64

/-!
The shortest decimal number that reads back as a given binary64 number.  The decimal grids are
nested, so the first one that has such a number, from coarse to fine, has the shortest; and on
each grid only the two neighbours of the exact value need to be tried.
-/

namespace RequestLine

/-- The number `digits * 10 ^ place`. -/
structure Decimal where
  digits : Nat
  place : Int
deriving DecidableEq, Repr

/-- Which of two decimal numbers is taken that lie equally near. -/
inductive Tie where
  | even
  | upper
deriving DecidableEq, Repr

namespace Decimal

def value (number : Decimal) : Rat :=
  number.digits * 10 ^ number.place

/-- Whether the decimal number is read as `x`. -/
def readsAs (number : Decimal) (x : Binary64) : Bool :=
  Binary64.nearest? number.value == some x

/-- Of the neighbours `below` and `below + 1` of `scaled`, the nearer one. -/
def nearer (tie : Tie) (scaled : Rat) (below : Nat) : Nat :=
  let excess := scaled - below
  if excess < 1 / 2 then below
  else if 1 / 2 < excess then below + 1
  else match tie with
    | .even => if below % 2 = 0 then below else below + 1
    | .upper => below + 1

/-- The number on the grid of `place` that is read as the positive number `x`, if there is one,
and the nearest of them if there are more. -/
def onGrid? (tie : Tie) (x : Binary64) (place : Int) : Option Decimal :=
  let scaled := x.magnitude / 10 ^ place
  let below := scaled.floor.toNat
  match readsAs ⟨below, place⟩ x, readsAs ⟨below + 1, place⟩ x with
  | true, true => some ⟨nearer tie scaled below, place⟩
  | true, false => some ⟨below, place⟩
  | false, true => some ⟨below + 1, place⟩
  | false, false => none

/-- The exact value of `x` on the grid of `place`, which is fine enough for it. -/
def exactOn (x : Binary64) (place : Int) : Decimal :=
  ⟨(x.magnitude / 10 ^ place).floor.toNat, place⟩

/-- The search through the grids of `place`, `place - 1` and so on, `steps` of them before the
last, which holds the value itself. -/
def searchFrom (tie : Tie) (x : Binary64) (place : Int) : Nat → Decimal
  | 0 => exactOn x place
  | steps + 1 => (onGrid? tie x place).getD (searchFrom tie x (place - 1) steps)

/-- The decimal number of fewest digits that is read as the positive number `x`, and of these the
one nearest to `x`.  A magnitude is a multiple of `2 ^ exponent`, hence of the same power of ten
if that is no integer. -/
def shortest (tie : Tie) (x : Binary64) : Decimal :=
  let first := leadingDigit x.magnitude + 1
  searchFrom tie x first (first - min x.exponent 0).toNat

end Decimal
end RequestLine
