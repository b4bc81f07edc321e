import Mathlib.Algebra.Order.Field.Power
import Mathlib.Tactic.Linarith
import Mathlib.Tactic.Positivity
import Mathlib.Tactic.Ring
import RequestLine.Proofs.Json.Numeral

/-!
The number that a numeral stands for, before any rounding.  Of the numerals without an exponent, a
number other than zero has one that has no zero to leave out.
-/

namespace RequestLine

/-- A magnitude with a sign before it. -/
def signed (negative : Bool) (magnitude : ℚ) : ℚ :=
  if negative then -magnitude else magnitude

theorem abs_signed (negative : Bool) {magnitude : ℚ} (nonneg : 0 ≤ magnitude) :
    |signed negative magnitude| = magnitude := by
  cases negative with
  | true => exact (abs_neg magnitude).trans (abs_of_nonneg nonneg)
  | false => exact abs_of_nonneg nonneg

theorem signed_neg_iff {negative : Bool} {magnitude : ℚ} (nonneg : 0 ≤ magnitude)
    (nonzero : signed negative magnitude ≠ 0) :
    signed negative magnitude < 0 ↔ negative = true := by
  cases negative with
  | true =>
      have positive : 0 < magnitude := lt_of_le_of_ne nonneg fun same => nonzero (by rw [← same]; rfl)
      exact iff_of_true (neg_neg_of_pos positive) rfl
  | false => exact iff_of_false (not_lt.mpr nonneg) Bool.false_ne_true

namespace Numeral

/-! ### Digits -/

section

variable {digits : List Char}

theorem natOfDigits_append (front back : List Char) :
    natOfDigits (front ++ back) = 10 ^ back.length * natOfDigits front + natOfDigits back := by
  rw [natOfDigits, Nat.ofDigitChars_append, Nat.ofDigitChars_eq_ofDigitChars_zero]
  rfl

theorem natOfDigits_concat (front : List Char) (last : Char) :
    natOfDigits (front ++ [last]) = 10 * natOfDigits front + (last.toNat - '0'.toNat) := by
  have single : natOfDigits [last] = last.toNat - '0'.toNat := by
    rw [natOfDigits, Nat.ofDigitChars_cons, Nat.ofDigitChars_nil, Nat.mul_zero, Nat.zero_add]
  rw [natOfDigits_append, single, List.length_singleton, pow_one]

/-- A digit is the character of its number. -/
theorem digitChar_of_isDigit {c : Char} (digit : c.isDigit = true) :
    c.toNat - '0'.toNat < 10 ∧ Nat.digitChar (c.toNat - '0'.toNat) = c := by
  have bounds := (Bool.and_eq_true _ _).mp digit
  have lower : 48 ≤ c.toNat := of_decide_eq_true bounds.1
  have upper : c.toNat ≤ 57 := of_decide_eq_true bounds.2
  have small : c.toNat - 48 < 10 := by omega
  refine ⟨small, ?_⟩
  apply Char.toNat_inj.mp
  change (Nat.digitChar (c.toNat - 48)).toNat = c.toNat
  rw [Nat.toNat_digitChar_of_lt_ten small]
  omega

theorem natOfDigits_lt (digit : ∀ c ∈ digits, c.isDigit = true) :
    natOfDigits digits < 10 ^ digits.length := by
  induction digits using List.reverseRecOn with
  | nil => decide
  | append_singleton front last ih =>
      have before := ih fun c member => digit c (List.mem_append_left _ member)
      have small := (digitChar_of_isDigit (digit last (by simp))).1
      rw [natOfDigits_concat, List.length_append, List.length_singleton, pow_succ]
      omega

/-- Digits without a zero to leave out are those of their number. -/
theorem toDigits_natOfDigits (digit : ∀ c ∈ digits, c.isDigit = true) (nonempty : digits ≠ [])
    (zero : digits.head? = some '0' → digits = ['0']) :
    Nat.toDigits 10 (natOfDigits digits) = digits := by
  induction digits using List.reverseRecOn with
  | nil => exact absurd rfl nonempty
  | append_singleton front last ih =>
      obtain ⟨small, char⟩ := digitChar_of_isDigit (digit last (by simp))
      rw [natOfDigits_concat]
      rcases List.eq_nil_or_concat front with rfl | ⟨others, next, shape⟩
      · change Nat.toDigits 10 (10 * 0 + (last.toNat - '0'.toNat)) = [last]
        rw [Nat.mul_zero, Nat.zero_add, Nat.toDigits_of_lt_base small, char]
      · have filled : front ≠ [] := by simp [shape]
        have solid : front.head? ≠ some '0' := by
          intro first
          have whole := zero (by rw [List.head?_append_of_ne_nil _ filled, first])
          have length := congrArg List.length whole
          simp [filled] at length
        have same := ih (fun c member => digit c (List.mem_append_left _ member)) filled
          fun first => absurd first solid
        have positive : 0 < natOfDigits front := by
          rw [Nat.pos_iff_ne_zero]
          intro none
          rw [none] at same
          exact solid (by rw [← same]; rfl)
        rw [← Nat.toDigits_append_toDigits (by decide) positive small, same,
          Nat.toDigits_of_lt_base small, char]

/-- Of as many digits, no others make the same number. -/
theorem eq_of_natOfDigits_eq {other : List Char} (digit : ∀ c ∈ digits, c.isDigit = true)
    (digitOther : ∀ c ∈ other, c.isDigit = true) (length : digits.length = other.length)
    (same : natOfDigits digits = natOfDigits other) : digits = other := by
  -- A one in front leaves no zero that could be left out.
  have restored : ∀ rest : List Char, (∀ c ∈ rest, c.isDigit = true) →
      Nat.toDigits 10 (10 ^ rest.length + natOfDigits rest) = '1' :: rest := by
    intro rest digits
    have value : natOfDigits ('1' :: rest) = 10 ^ rest.length + natOfDigits rest := by
      rw [← List.singleton_append, natOfDigits_append]
      change 10 ^ rest.length * 1 + natOfDigits rest = _
      rw [Nat.mul_one]
    rw [← value]
    refine toDigits_natOfDigits ?_ (List.cons_ne_nil _ _) (by simp)
    rw [List.forall_mem_cons]
    exact ⟨rfl, digits⟩
  have both := restored digits digit
  rw [length, same, restored other digitOther] at both
  exact (List.cons.inj both).2.symm

theorem dvd_natOfDigits_iff (digit : ∀ c ∈ digits, c.isDigit = true) (nonempty : digits ≠ []) :
    10 ∣ natOfDigits digits ↔ digits.getLast? = some '0' := by
  rcases List.eq_nil_or_concat digits with rfl | ⟨front, last, rfl⟩
  · exact absurd rfl nonempty
  · obtain ⟨small, char⟩ := digitChar_of_isDigit (digit last (by simp))
    have zero : last = '0' ↔ last.toNat - '0'.toNat = 0 := by
      rw [← Nat.digitChar_eq_zero, char]
    rw [List.concat_eq_append, natOfDigits_concat, List.getLast?_concat, Option.some.injEq, zero]
    omega

end

/-! ### The number of a numeral -/

/-- The number that is written, as it is. -/
def exact (numeral : Numeral) : ℚ :=
  signed numeral.negative (natOfDigits (numeral.whole ++ numeral.fraction) *
    10 ^ (numeral.exponent.getD 0 - numeral.fraction.length))

/-- A numeral without an exponent and without zeros at its end that the point could do without. -/
structure IsPlain (numeral : Numeral) : Prop extends WellFormed numeral where
  no_exponent : numeral.exponent = none
  last_ne_zero : numeral.fraction.getLast? ≠ some '0'

section

variable {numeral other : Numeral}

theorem IsPlain.natOfDigits_eq (plain : numeral.IsPlain) :
    (natOfDigits (numeral.whole ++ numeral.fraction) : ℚ) =
      |numeral.exact| * 10 ^ numeral.fraction.length := by
  rw [exact, plain.no_exponent, abs_signed _ (by positivity), Option.getD_none, zero_sub, zpow_neg,
    zpow_natCast, inv_mul_cancel_right₀ (by positivity)]

theorem negative_iff (nonzero : numeral.exact ≠ 0) :
    numeral.negative = true ↔ numeral.exact < 0 :=
  (signed_neg_iff (by positivity) nonzero).symm

/-- A longer fraction would end in a zero. -/
theorem IsPlain.length_fraction_le (plain : numeral.IsPlain) (plainOther : other.IsPlain)
    (same : numeral.exact = other.exact) : other.fraction.length ≤ numeral.fraction.length := by
  by_contra longer
  rw [not_le] at longer
  obtain ⟨more, length⟩ := Nat.exists_eq_add_of_lt longer
  have multiple : natOfDigits (other.whole ++ other.fraction) =
      natOfDigits (numeral.whole ++ numeral.fraction) * 10 ^ (more + 1) := by
    have cast : (natOfDigits (other.whole ++ other.fraction) : ℚ) =
        natOfDigits (numeral.whole ++ numeral.fraction) * 10 ^ (more + 1) := by
      rw [plainOther.natOfDigits_eq, plain.natOfDigits_eq, same, length, mul_assoc, ← pow_add,
        add_assoc]
    exact_mod_cast cast
  have some : other.fraction ≠ [] := List.length_pos_iff.mp (by omega)
  have ends := (dvd_natOfDigits_iff plainOther.digit (by simp [some])).mp
    (by rw [multiple, pow_succ, ← mul_assoc]; exact Nat.dvd_mul_left _ _)
  rw [List.getLast?_append_of_ne_nil _ some] at ends
  exact plainOther.last_ne_zero ends

/-- A number other than zero has no two plain numerals. -/
theorem IsPlain.unique (plain : numeral.IsPlain) (plainOther : other.IsPlain)
    (same : numeral.exact = other.exact) (nonzero : numeral.exact ≠ 0) : numeral = other := by
  have length : numeral.fraction.length = other.fraction.length :=
    le_antisymm (plainOther.length_fraction_le plain same.symm) (plain.length_fraction_le plainOther same)
  have value : natOfDigits (numeral.whole ++ numeral.fraction) =
      natOfDigits (other.whole ++ other.fraction) := by
    have cast : (natOfDigits (numeral.whole ++ numeral.fraction) : ℚ) =
        natOfDigits (other.whole ++ other.fraction) := by
      rw [plain.natOfDigits_eq, plainOther.natOfDigits_eq, same, length]
    exact_mod_cast cast
  have sign : numeral.negative = other.negative := by
    rw [Bool.eq_iff_iff, negative_iff nonzero, negative_iff (same ▸ nonzero), same]
  have exponent : numeral.exponent = other.exponent :=
    plain.no_exponent.trans plainOther.no_exponent.symm
  obtain ⟨negative, whole, fraction, _⟩ := numeral
  obtain ⟨negativeOther, wholeOther, fractionOther, _⟩ := other
  obtain ⟨⟨nonempty, digit, zero⟩, _, _⟩ := plain
  obtain ⟨⟨nonemptyOther, digitOther, zeroOther⟩, _, _⟩ := plainOther
  dsimp only at *
  rw [List.forall_mem_append] at digit digitOther
  have fractionLt := natOfDigits_lt digit.2
  have fractionLtOther := natOfDigits_lt digitOther.2
  -- Digits before the point and digits after it, as quotient and remainder.
  rw [natOfDigits_append, natOfDigits_append, length] at value
  rw [length] at fractionLt
  have wholes : natOfDigits whole = natOfDigits wholeOther := by
    have quotient := congrArg (· / 10 ^ fractionOther.length) value
    simpa [Nat.mul_add_div, Nat.div_eq_of_lt fractionLt, Nat.div_eq_of_lt fractionLtOther]
      using quotient
  have fractions : natOfDigits fraction = natOfDigits fractionOther := by
    rw [wholes] at value
    omega
  have sameWhole : whole = wholeOther := by
    rw [← toDigits_natOfDigits digit.1 nonempty zero, wholes,
      toDigits_natOfDigits digitOther.1 nonemptyOther zeroOther]
  have sameFraction := eq_of_natOfDigits_eq digit.2 digitOther.2 length fractions
  rw [sign, exponent, sameWhole, sameFraction]

/-! ### Characters -/

theorem WellFormed.mem_text (wellFormed : numeral.WellFormed) (unscaled : numeral.exponent = none)
    {c : Char} (member : c ∈ numeral.text) : c = '-' ∨ c = '.' ∨ c.isDigit = true := by
  have digit := List.forall_mem_append.mp wellFormed.digit
  rw [text, unscaled, exponentText, List.append_nil, List.mem_append, List.mem_append]
    at member
  rcases member with sign | whole | fraction
  · rw [signText] at sign
    split at sign
    · exact .inl (List.mem_singleton.mp sign)
    · cases sign
  · exact .inr (.inr (digit.1 c whole))
  · cases shape : numeral.fraction with
    | nil =>
        rw [shape] at fraction
        cases fraction
    | cons first others =>
        rw [shape] at fraction
        rcases List.mem_cons.mp fraction with point | inside
        · exact .inr (.inl point)
        · exact .inr (.inr (digit.2 c (shape ▸ inside)))

/-- A plain numeral ends in a fraction of some worth or has no point at all. -/
theorem IsPlain.not_point_zero (plain : numeral.IsPlain) : ¬ ['.', '0'] <:+ numeral.text := by
  intro ends
  rw [text, plain.no_exponent, exponentText, List.append_nil] at ends
  cases shape : numeral.fraction with
  | nil =>
      rw [shape, fractionText, List.append_nil] at ends
      have point : '.' ∈ signText numeral.negative ++ numeral.whole := ends.mem List.mem_cons_self
      rcases List.mem_append.mp point with sign | whole
      · cases negative : numeral.negative <;> simp [negative, signText] at sign
      · have digit := plain.digit '.' (List.mem_append_left _ whole)
        contradiction
  | cons first others =>
      obtain ⟨front, cut⟩ := ends
      have last := congrArg List.getLast? cut
      rw [shape, fractionText_cons, List.getLast?_append_of_ne_nil _ (by simp),
        List.getLast?_append_of_ne_nil _ (by simp), List.getLast?_append_of_ne_nil _ (by simp)] at last
      exact plain.last_ne_zero (by simpa [shape] using last.symm)

end

end Numeral

/-- The text is a plain numeral of the number. -/
def IsPlainText (v : ℚ) (text : List Char) : Prop :=
  ∃ numeral : Numeral, numeral.IsPlain ∧ numeral.exact = v ∧ numeral.text = text

/-- The text is read as a numeral, to the last character, and the numeral stands for the number. -/
def Denotes (text : List Char) (v : ℚ) : Prop :=
  ∃ numeral, Numeral.read? text = some (numeral, []) ∧ numeral.exact = v

namespace IsPlainText

variable {v : ℚ} {text other : List Char}

theorem unique (plain : IsPlainText v text) (plainOther : IsPlainText v other) (nonzero : v ≠ 0) :
    text = other := by
  obtain ⟨numeral, isPlain, rfl, rfl⟩ := plain
  obtain ⟨numeralOther, isPlainOther, same, rfl⟩ := plainOther
  rw [isPlain.unique isPlainOther same.symm nonzero]

theorem iff_eq (plain : IsPlainText v text) (nonzero : v ≠ 0) : IsPlainText v other ↔ other = text := by
  apply Iff.intro
  · intro plainOther
    exact plainOther.unique plain nonzero
  · rintro rfl
    exact plain

theorem denotes (plain : IsPlainText v text) : Denotes text v := by
  obtain ⟨numeral, isPlain, value, rfl⟩ := plain
  exact ⟨numeral, Numeral.read?_text_nil isPlain.toWellFormed, value⟩

theorem letter_not_mem (plain : IsPlainText v text) : 'e' ∉ text := by
  obtain ⟨numeral, isPlain, _, rfl⟩ := plain
  intro letter
  rcases isPlain.mem_text isPlain.no_exponent letter with same | same | same <;> contradiction

theorem not_point_zero (plain : IsPlainText v text) : ¬ ['.', '0'] <:+ text := by
  obtain ⟨numeral, isPlain, _, rfl⟩ := plain
  exact isPlain.not_point_zero

end IsPlainText

end RequestLine
