import RequestLine.Number.Layout
import RequestLine.Proofs.Number.Numerals

/-!
How digits are laid out: with the point at its place they are the plain numeral of a number, wherever the
place is.
-/

namespace RequestLine

open Numeral (natOfDigits signText fractionText exponentText IsPlain)

/-- Digits of which none could be left out at either end. -/
structure Significant (digits : List Char) : Prop where
  nonempty : digits ≠ []
  digit : ∀ c ∈ digits, c.isDigit = true
  head_ne_zero : digits.head? ≠ some '0'
  last_ne_zero : digits.getLast? ≠ some '0'

theorem significant_toDigits {n : Nat} (reduced : ¬ 10 ∣ n) : Significant (Nat.toDigits 10 n) := by
  have positive : 0 < n := by omega
  have digit : ∀ c ∈ Nat.toDigits 10 n, c.isDigit = true := fun _ => Numeral.isDigit_toDigits
  refine ⟨Nat.toDigits_ne_nil, digit, Numeral.head_toDigits n positive, ?_⟩
  intro last
  have multiple := (Numeral.dvd_natOfDigits_iff digit Nat.toDigits_ne_nil).mpr last
  rw [Numeral.natOfDigits_toDigits] at multiple
  exact reduced multiple

/-! ### Plain numbers -/

theorem isDigit_of_mem_zeros {count : Nat} {c : Char} (member : c ∈ Layout.zeros count) :
    c.isDigit = true := by
  rw [List.eq_of_mem_replicate member]
  rfl

theorem natOfDigits_zeros_append (count : Nat) (digits : List Char) :
    natOfDigits (Layout.zeros count ++ digits) = natOfDigits digits := by
  have zero : natOfDigits (Layout.zeros count) = 0 := by
    rw [natOfDigits, Layout.zeros, Nat.ofDigitChars_replicate_zero, Nat.mul_zero]
  rw [Numeral.natOfDigits_append, zero, Nat.mul_zero, Nat.zero_add]

theorem natOfDigits_append_zeros (digits : List Char) (count : Nat) :
    natOfDigits (digits ++ Layout.zeros count) = natOfDigits digits * 10 ^ count := by
  rw [natOfDigits, Nat.ofDigitChars_append, Layout.zeros, Nat.ofDigitChars_replicate_zero, mul_comm]
  rfl

section

variable {digits : List Char} (significant : Significant digits) (negative : Bool)
include significant

theorem isPlainText_integer (count : Nat) :
    IsPlainText (signed negative (natOfDigits digits * 10 ^ (count : ℤ)))
      (signText negative ++ (digits ++ Layout.zeros count)) := by
  have plain : IsPlain ⟨negative, digits ++ Layout.zeros count, [], none⟩ := {
    whole_ne_nil := by simp [significant.nonempty]
    digit := by
      rw [List.append_nil, List.forall_mem_append]
      exact ⟨significant.digit, fun _ => isDigit_of_mem_zeros⟩
    leading_zero := by
      intro first
      rw [List.head?_append_of_ne_nil _ significant.nonempty] at first
      exact absurd first significant.head_ne_zero
    no_exponent := rfl
    last_ne_zero := by simp }
  refine ⟨_, plain, ?_, ?_⟩
  · simp [Numeral.exact, natOfDigits_append_zeros]
  · simp [Numeral.text, fractionText, exponentText]

theorem isPlainText_mixed {count : Nat} (some : 0 < count) (inside : count < digits.length) :
    IsPlainText (signed negative (natOfDigits digits * 10 ^ ((count : ℤ) - digits.length)))
      (signText negative ++ (digits.take count ++ '.' :: digits.drop count)) := by
  have plain : IsPlain ⟨negative, digits.take count, digits.drop count, none⟩ := {
    whole_ne_nil := by
      rw [ne_eq, List.take_eq_nil_iff, not_or]
      exact ⟨some.ne', significant.nonempty⟩
    digit := by
      rw [List.take_append_drop]
      exact significant.digit
    leading_zero := by
      intro first
      rw [List.head?_take, if_neg some.ne'] at first
      exact absurd first significant.head_ne_zero
    no_exponent := rfl
    last_ne_zero := by
      rw [List.getLast?_drop, if_neg (by omega)]
      exact significant.last_ne_zero }
  refine ⟨_, plain, ?_, ?_⟩
  · have places : (0 : ℤ) - (digits.length - count : Nat) = count - digits.length := by omega
    simp [Numeral.exact, places]
  · have fraction : digits.drop count ≠ [] := by simp [inside]
    obtain ⟨first, others, shape⟩ := List.exists_cons_of_ne_nil fraction
    simp [Numeral.text, fractionText, exponentText, shape]

theorem isPlainText_fraction (count : Nat) :
    IsPlainText (signed negative (natOfDigits digits * 10 ^ (-(count : ℤ) - digits.length)))
      (signText negative ++ ('0' :: '.' :: Layout.zeros count ++ digits)) := by
  have plain : IsPlain ⟨negative, ['0'], Layout.zeros count ++ digits, none⟩ := {
    whole_ne_nil := List.cons_ne_nil _ _
    digit := by
      rw [List.forall_mem_append, List.forall_mem_append, List.forall_mem_singleton]
      exact ⟨rfl, fun _ => isDigit_of_mem_zeros, significant.digit⟩
    leading_zero := fun _ => rfl
    no_exponent := rfl
    last_ne_zero := by
      rw [List.getLast?_append_of_ne_nil _ significant.nonempty]
      exact significant.last_ne_zero }
  refine ⟨_, plain, ?_, ?_⟩
  · have zero : natOfDigits (['0'] ++ (Layout.zeros count ++ digits)) = natOfDigits digits := by
      rw [← natOfDigits_zeros_append (count + 1) digits]
      rfl
    have places : (0 : ℤ) - (Layout.zeros count ++ digits).length = -count - digits.length := by
      simp [Layout.zeros]
      omega
    rw [Numeral.exact, zero]
    simp only [Option.getD_none, places]
  · have fraction : Layout.zeros count ++ digits ≠ [] := by simp [significant.nonempty]
    obtain ⟨first, others, shape⟩ := List.exists_cons_of_ne_nil fraction
    simp [Numeral.text, fractionText, exponentText, shape]

/-- The point may stand after the digits, between two of them, or before them. -/
theorem isPlainText_plain {layout : Layout} (bare : layout.wholeEnding = "") (place : ℤ) :
    IsPlainText (signed negative (natOfDigits digits * 10 ^ place))
      (signText negative ++ layout.plain digits place) := by
  have ending : layout.wholeEnding.toList = [] := by
    rw [bare]
    rfl
  rw [Layout.plain, ending, List.append_nil]
  split
  · rename_i whole
    obtain ⟨count, rfl⟩ := Int.eq_ofNat_of_zero_le whole
    exact isPlainText_integer significant negative count
  · rename_i broken
    split
    · rename_i mixed
      obtain ⟨count, before⟩ := Int.eq_ofNat_of_zero_le mixed.le
      obtain rfl : place = count - digits.length := by omega
      rw [before, Int.toNat_natCast]
      exact isPlainText_mixed significant negative (by omega) (by omega)
    · rename_i small
      obtain ⟨count, before⟩ := Int.eq_ofNat_of_zero_le (Int.neg_nonneg.mpr (not_lt.mp small))
      obtain rfl : place = -count - digits.length := by omega
      rw [before, Int.toNat_natCast]
      exact isPlainText_fraction significant negative count

end

/-! ### Scientific notation -/

theorem scientific_cons (first : Char) (others : List Char) (exponent : ℤ) :
    Layout.scientific (first :: others) exponent =
      first :: (fractionText others ++ exponentText (some exponent)) := by
  cases others with
  | nil => rfl
  | cons second others => rfl

end RequestLine
