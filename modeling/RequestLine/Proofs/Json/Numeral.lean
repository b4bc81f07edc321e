import Mathlib.Data.List.Basic
import RequestLine.Json.Lexeme
import RequestLine.Json.Writer

/-!
The text of a numeral, from which the numeral is read back.  Integers in the range of the reader are
read back from their digits.
-/

namespace RequestLine

/-- What is left after an entry of an array or object that is written without spaces. -/
def Delimited (rest : List Char) : Prop :=
  ∀ c, rest.head? = some c → c = ',' ∨ c = ']' ∨ c = '}'

theorem delimited_nil : Delimited [] := by
  intro c first
  cases first

theorem delimited_cons {c : Char} (delimiter : c = ',' ∨ c = ']' ∨ c = '}') (rest : List Char) :
    Delimited (c :: rest) := by
  intro d first
  cases first
  exact delimiter

namespace Numeral

theorem head_toDigits (n : Nat) (positive : 0 < n) : (Nat.toDigits 10 n).head? ≠ some '0' := by
  induction n using Nat.strongRecOn with
  | ind n ih =>
      by_cases small : n < 10
      · rw [Nat.toDigits_of_lt_base small]
        simp only [List.head?_cons, ne_eq, Option.some.injEq, Nat.digitChar_eq_zero]
        omega
      · rw [Nat.toDigits_of_base_le (by omega) (by omega),
          List.head?_append_of_ne_nil _ Nat.toDigits_ne_nil]
        apply ih (n / 10) (by omega) (by omega)

/-- Only the number zero is written with a zero at the front. -/
theorem eq_zero_of_head_toDigits {n : Nat} (zero : (Nat.toDigits 10 n).head? = some '0') :
    Nat.toDigits 10 n = ['0'] := by
  rcases Nat.eq_zero_or_pos n with rfl | positive
  · rfl
  · exact absurd zero (head_toDigits n positive)

theorem isDigit_toDigits {n : Nat} {c : Char} (member : c ∈ Nat.toDigits 10 n) :
    c.isDigit = true :=
  Nat.isDigit_of_mem_toDigits (by omega) (by omega) member

/-! ### The text of a numeral -/

def signText (negative : Bool) : List Char :=
  if negative then ['-'] else []

def fractionText : List Char → List Char
  | [] => []
  | digits => '.' :: digits

theorem fractionText_cons (first : Char) (others : List Char) :
    fractionText (first :: others) = '.' :: first :: others := rfl

/-- The exponent has its sign even if it is not negative. -/
def exponentText : Option Int → List Char
  | none => []
  | some exponent => 'e' :: (if exponent < 0 then '-' else '+') :: Nat.toDigits 10 exponent.natAbs

def text (numeral : Numeral) : List Char :=
  signText numeral.negative ++
    (numeral.whole ++ (fractionText numeral.fraction ++ exponentText numeral.exponent))

/-- The digits are decimal, and no zero stands before other digits of the whole part. -/
structure WellFormed (numeral : Numeral) : Prop where
  whole_ne_nil : numeral.whole ≠ []
  digit : ∀ c ∈ numeral.whole ++ numeral.fraction, c.isDigit = true
  leading_zero : numeral.whole.head? = some '0' → numeral.whole = ['0']

/-- What cannot go on with digits or begin a fraction. -/
def EndsDigits (rest : List Char) : Prop :=
  ∀ c, rest.head? = some c → c.isDigit = false ∧ c ≠ '.'

theorem Delimited.endsDigits {rest : List Char} (delimited : Delimited rest) : EndsDigits rest := by
  intro c first
  rcases delimited c first with rfl | rfl | rfl <;> decide

theorem endsDigits_exponentText (exponent : Option Int) {rest : List Char}
    (delimited : Delimited rest) : EndsDigits (exponentText exponent ++ rest) := by
  cases exponent with
  | none => exact Delimited.endsDigits delimited
  | some exponent =>
      intro c first
      cases first
      decide

section

variable {digits rest : List Char} (digit : ∀ c ∈ digits, c.isDigit = true)
include digit

theorem digits?_append (nonempty : digits ≠ [])
    (stop : ∀ c, rest.head? = some c → c.isDigit = false) :
    digits? (digits ++ rest) = some (digits, rest) := by
  have ended : rest.takeWhile Char.isDigit = [] ∧ rest.dropWhile Char.isDigit = rest := by
    cases rest with
    | nil => exact ⟨rfl, rfl⟩
    | cons c rest =>
        have other : ¬ c.isDigit = true := by simp [stop c rfl]
        exact ⟨List.takeWhile_cons_of_neg other, List.dropWhile_cons_of_neg other⟩
  unfold digits?
  rw [List.takeWhile_append_of_pos digit, List.dropWhile_append_of_pos digit, ended.1, ended.2,
    List.append_nil]
  split
  · exact absurd rfl nonempty
  · rfl

theorem whole?_append (nonempty : digits ≠ []) (zero : digits.head? = some '0' → digits = ['0'])
    (stop : ∀ c, rest.head? = some c → c.isDigit = false) :
    whole? (digits ++ rest) = some (digits, rest) := by
  have single : ¬ (digits.head? = some '0' ∧ digits.length ≠ 1) := by
    intro zeros
    exact zeros.2 (by rw [zero zeros.1]; rfl)
  simp [whole?, digits?_append digit nonempty stop, single]

theorem fraction?_append (stop : EndsDigits rest) :
    fraction? (fractionText digits ++ rest) = some (digits, rest) := by
  cases digits with
  | nil =>
      change fraction? rest = _
      unfold fraction?
      split
      · exact absurd rfl (stop '.' rfl).2
      · rfl
  | cons first others =>
      exact digits?_append digit (List.cons_ne_nil _ _) fun c head => (stop c head).1

end

theorem natOfDigits_toDigits (n : Nat) : natOfDigits (Nat.toDigits 10 n) = n :=
  Nat.ofDigitChars_ten_toDigits

theorem digits?_toDigits (n : Nat) {rest : List Char} (delimited : Delimited rest) :
    digits? (Nat.toDigits 10 n ++ rest) = some (Nat.toDigits 10 n, rest) :=
  digits?_append (fun _ => isDigit_toDigits) Nat.toDigits_ne_nil
    fun c head => (Delimited.endsDigits delimited c head).1

theorem signedExponent?_append (exponent : Int) {rest : List Char} (delimited : Delimited rest) :
    signedExponent? ((if exponent < 0 then '-' else '+') ::
      (Nat.toDigits 10 exponent.natAbs ++ rest)) = some (exponent, rest) := by
  have read := digits?_toDigits exponent.natAbs delimited
  have value := natOfDigits_toDigits exponent.natAbs
  by_cases negative : exponent < 0
  · have back : -(natOfDigits (Nat.toDigits 10 exponent.natAbs) : Int) = exponent := by omega
    rw [if_pos negative, signedExponent?, read]
    exact congrArg (fun exponent => some (exponent, rest)) back
  · have back : (natOfDigits (Nat.toDigits 10 exponent.natAbs) : Int) = exponent := by omega
    rw [if_neg negative, signedExponent?, read]
    exact congrArg (fun exponent => some (exponent, rest)) back

theorem exponent?_append (exponent : Option Int) {rest : List Char} (delimited : Delimited rest) :
    exponent? (exponentText exponent ++ rest) = some (exponent, rest) := by
  cases exponent with
  | none =>
      change exponent? rest = _
      unfold exponent?
      split
      · rcases delimited 'e' rfl with sign | sign | sign <;> cases sign
      · rcases delimited 'E' rfl with sign | sign | sign <;> cases sign
      · rfl
  | some exponent =>
      have scaled := signedExponent?_append exponent delimited
      change (signedExponent? ((if exponent < 0 then '-' else '+') ::
        (Nat.toDigits 10 exponent.natAbs ++ rest))).map _ = _
      rw [scaled]
      rfl

/-- A numeral is read back from its text. -/
theorem read?_text {numeral : Numeral} (wellFormed : numeral.WellFormed) {rest : List Char}
    (delimited : Delimited rest) : read? (numeral.text ++ rest) = some (numeral, rest) := by
  obtain ⟨negative, whole, fraction, exponent⟩ := numeral
  obtain ⟨nonempty, digit, zero⟩ := wellFormed
  dsimp only at nonempty digit zero
  have wholeDigit : ∀ c ∈ whole, c.isDigit = true :=
    fun c member => digit c (List.mem_append_left _ member)
  have fractionDigit : ∀ c ∈ fraction, c.isDigit = true :=
    fun c member => digit c (List.mem_append_right _ member)
  have ended := endsDigits_exponentText exponent delimited
  have stop : ∀ c, (fractionText fraction ++ (exponentText exponent ++ rest)).head? = some c →
      c.isDigit = false := by
    intro c first
    cases fraction with
    | nil => exact (ended c first).1
    | cons => cases first; rfl
  have wholeRead := whole?_append wholeDigit nonempty zero stop
  have fractionRead := fraction?_append fractionDigit ended
  have exponentRead := exponent?_append exponent delimited
  cases negative with
  | true => simp [read?, text, signText, wholeRead, fractionRead, exponentRead]
  | false =>
      -- Without a sign the text begins with a digit, which is no minus.
      obtain ⟨first, others, rfl⟩ := List.exists_cons_of_ne_nil nonempty
      have unsigned : first ≠ '-' := by
        rintro rfl
        have isDigit := wholeDigit '-' List.mem_cons_self
        contradiction
      simp [read?, text, signText, unsigned] at wholeRead ⊢
      simp [wholeRead, fractionRead, exponentRead]

theorem read?_text_nil {numeral : Numeral} (wellFormed : numeral.WellFormed) :
    read? numeral.text = some (numeral, []) := by
  have read := read?_text wellFormed delimited_nil
  rwa [List.append_nil] at read

/-- The numeral that an integer is written as. -/
def ofInt (n : Int) : Numeral where
  negative := n < 0
  whole := Nat.toDigits 10 n.natAbs
  fraction := []
  exponent := none

theorem text_ofInt (n : Int) : (ofInt n).text = integerText n := by
  simp [text, ofInt, signText, fractionText, exponentText, integerText]

theorem wellFormed_ofInt (n : Int) : (ofInt n).WellFormed where
  whole_ne_nil := Nat.toDigits_ne_nil
  digit c member := isDigit_toDigits (by simpa [ofInt] using member)
  leading_zero := eq_zero_of_head_toDigits

theorem read?_integerText (n : Int) {rest : List Char} (delimited : Delimited rest) :
    read? (integerText n ++ rest) = some (ofInt n, rest) := by
  rw [← text_ofInt]
  exact read?_text (wellFormed_ofInt n) delimited

/-- The integers that the reader takes as such. -/
def InRange (n : Int) : Prop :=
  -9223372036854775808 ≤ n ∧ n ≤ 18446744073709551615

theorem value?_ofInt {n : Int} (bounds : InRange n) : (ofInt n).value? = some (.integer n) := by
  obtain ⟨least, greatest⟩ := bounds
  have size : UInt64.size = 18446744073709551616 := rfl
  have magnitude := natOfDigits_toDigits n.natAbs
  have integer : (ofInt n).integer? = some n := by
    have whole : ¬ (([] : List Char) ≠ [] ∨ (none : Option Int).isSome = true) := by simp
    unfold integer? ofInt
    dsimp only
    rw [if_neg whole, magnitude, size]
    by_cases negative : n < 0
    · have bound : 0 < n.natAbs ∧ n.natAbs ≤ 18446744073709551616 / 2 := by omega
      rw [if_pos (decide_eq_true negative), if_pos bound]
      congr
      omega
    · have bound : n.natAbs < 18446744073709551616 := by omega
      rw [if_neg (by simpa using negative), if_pos bound]
      congr
      omega
  simp [value?, integer]

theorem inRange_of_integer? {numeral : Numeral} {value : Int}
    (integer : numeral.integer? = some value) : InRange value := by
  have size : UInt64.size = 18446744073709551616 := rfl
  unfold integer? at integer
  dsimp only at integer
  rw [size] at integer
  unfold InRange
  split at integer
  · cases integer
  · split at integer
    · split at integer
      · obtain rfl := Option.some.inj integer
        omega
      · cases integer
    · split at integer
      · obtain rfl := Option.some.inj integer
        omega
      · cases integer

end Numeral
end RequestLine
