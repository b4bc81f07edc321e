/-! Hexadecimal digits. -/

namespace RequestLine.Text

/-- The value of a digit, whose letter may be of either case. -/
def hexDigit? (c : Char) : Option Nat :=
  if c.isDigit then some (c.toNat - '0'.toNat)
  else if 'a' ≤ c ∧ c ≤ 'f' then some (c.toNat - 'a'.toNat + 10)
  else if 'A' ≤ c ∧ c ≤ 'F' then some (c.toNat - 'A'.toNat + 10)
  else none

def lowerHexDigit (n : Nat) : Char :=
  Nat.digitChar n

def upperHexDigit (n : Nat) : Char :=
  (Nat.digitChar n).toUpper

theorem hexDigit?_lowerHexDigit {n : Nat} (bound : n < 16) :
    hexDigit? (lowerHexDigit n) = some n := by
  have all : ∀ n : Fin 16, hexDigit? (lowerHexDigit n) = some n.val := by decide
  exact all ⟨n, bound⟩

theorem hexDigit?_upperHexDigit {n : Nat} (bound : n < 16) :
    hexDigit? (upperHexDigit n) = some n := by
  have all : ∀ n : Fin 16, hexDigit? (upperHexDigit n) = some n.val := by decide
  exact all ⟨n, bound⟩

end RequestLine.Text
