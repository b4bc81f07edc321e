import RequestLine.Proofs.Number.Layout
import RequestLine.Proofs.Number.Shortest
import RequestLine.Proofs.Text.Cutting
import RequestLine.Query

/-!
The text of a number in a query, by the place of its first digit.  It is the plain numeral of the
shortest digits, or one in scientific notation, and it is the same text if the form is chosen by the
size of the number itself.
-/

namespace RequestLine

open Numeral (natOfDigits signText fractionText exponentText WellFormed)
open Text (takeWhile_before_sign dropWhile_before_sign)

/-! ### The layout of a decimal number -/

/-- The places of the leading digit at which a number is plain. -/
def PlainPlace (leading : ℤ) : Prop :=
  -6 ≤ leading ∧ leading ≤ 20

/-- The text of a number by the place of its leading digit: the plain numeral, or one digit before the
point and the exponent with its sign.  It denotes the number either way. -/
structure LaidOut (negative : Bool) (number : Decimal) (text : List Char) : Prop where
  plain_iff : ('e' ∉ text ∧ ¬ ['.', '0'] <:+ text) ↔ PlainPlace number.leading
  plain : PlainPlace number.leading →
    ∀ other, IsPlainText (signed negative number.value) other ↔ other = text
  scientific : ¬ PlainPlace number.leading →
    ∃ first others, Nat.toDigits 10 number.digits = first :: others ∧
      text = Numeral.text ⟨negative, [first], others, some number.leading⟩
  denotes : Denotes text (signed negative number.value)

section

variable {number : Decimal}

theorem value_eq_natOfDigits (number : Decimal) :
    number.value = natOfDigits (Nat.toDigits 10 number.digits) * 10 ^ number.place := by
  rw [Numeral.natOfDigits_toDigits, Decimal.value_eq]

theorem decimal_of_plainPlace (place : PlainPlace number.leading) :
    queryLayout.decimal number =
      queryLayout.plain (Nat.toDigits 10 number.digits) number.place :=
  if_pos ⟨place.1, Int.lt_add_one_of_le place.2⟩

theorem decimal_of_not_plainPlace (place : ¬ PlainPlace number.leading) :
    queryLayout.decimal number =
      Layout.scientific (Nat.toDigits 10 number.digits) number.leading :=
  if_neg fun within => place ⟨within.1, Int.le_of_lt_add_one within.2⟩

variable (reduced : ¬ 10 ∣ number.digits) (negative : Bool)
include reduced

theorem laidOut_plain (place : PlainPlace number.leading) :
    LaidOut negative number (signText negative ++ queryLayout.decimal number) := by
  have digits := significant_toDigits reduced
  have bare : queryLayout.wholeEnding = "" := rfl
  have plain := isPlainText_plain digits negative bare number.place
  rw [← decimal_of_plainPlace place, ← value_eq_natOfDigits] at plain
  have nonzero : signed negative number.value ≠ 0 := by
    have positive : 0 < number.value := Decimal.value_pos_iff.mpr (by omega)
    rw [← abs_pos, abs_signed negative positive.le]
    exact positive
  exact {
    plain_iff := iff_of_true ⟨plain.letter_not_mem, plain.not_point_zero⟩ place
    plain := fun _ _ => plain.iff_eq nonzero
    scientific := fun other => absurd place other
    denotes := plain.denotes }

theorem laidOut_scientific (place : ¬ PlainPlace number.leading) :
    LaidOut negative number (signText negative ++ queryLayout.decimal number) := by
  have digits := significant_toDigits reduced
  obtain ⟨first, others, shape⟩ := List.exists_cons_of_ne_nil digits.nonempty
  have count : (number.leading : ℤ) - others.length = number.place := by
    rw [Decimal.leading, Decimal.count, shape, List.length_cons]
    omega
  have value := value_eq_natOfDigits number
  rw [shape] at digits value
  have wellFormed : WellFormed ⟨negative, [first], others, some number.leading⟩ :=
    ⟨List.cons_ne_nil _ _, digits.digit, fun zero => absurd zero digits.head_ne_zero⟩
  have text : signText negative ++ queryLayout.decimal number =
      Numeral.text ⟨negative, [first], others, some number.leading⟩ := by
    rw [decimal_of_not_plainPlace place, shape, scientific_cons]
    rfl
  have letter : 'e' ∈ Numeral.text ⟨negative, [first], others, some number.leading⟩ := by
    simp [Numeral.text, exponentText]
  have exact : Numeral.exact ⟨negative, [first], others, some number.leading⟩ =
      signed negative number.value := by
    rw [Numeral.exact, value, ← count]
    rfl
  rw [text]
  exact {
    plain_iff := iff_of_false (fun letters => letters.1 letter) place
    plain := fun within => absurd within place
    scientific := fun _ => ⟨first, others, shape, rfl⟩
    denotes := ⟨_, Numeral.read?_text_nil wellFormed, exact⟩ }

theorem laidOut_decimal :
    LaidOut negative number (signText negative ++ queryLayout.decimal number) := by
  by_cases place : PlainPlace number.leading
  · exact laidOut_plain reduced negative place
  · exact laidOut_scientific reduced negative place

end

/-! ### The form by the size of the number -/

/-- `10 ^ -6`, as near as binary64 comes to it. -/
def plainLeast : Binary64 :=
  ⟨false, 4722366482869645, -72, by decide⟩

/-- `10 ^ 21`. -/
def plainBound : Binary64 :=
  ⟨false, 7629394531250000, 17, by decide⟩

theorem nearest?_plainLeast : Binary64.nearest? (10 ^ (-6 : ℤ)) = some plainLeast := by
  decide +kernel

theorem nearest?_plainBound : Binary64.nearest? (10 ^ (21 : ℤ)) = some plainBound := by
  decide +kernel

/-- The digits with the point at its place. -/
def positionalText (negative : Bool) (number : Decimal) : List Char :=
  signText negative ++ queryLayout.plain (Nat.toDigits 10 number.digits) number.place

/-- One digit before the point, and an exponent that has a sign only if it is negative. -/
def exponentialText (negative : Bool) (number : Decimal) : List Char :=
  let digits := Nat.toDigits 10 number.digits
  signText negative ++
    (digits.take 1 ++ fractionText (digits.drop 1) ++ 'e' :: integerText number.leading)

/-- The text with a plus sign after its first letter `e`, unless there is a minus sign. -/
def withPlus (text : List Char) : List Char :=
  match text.dropWhile (· != 'e') with
  | [] => text
  | _ :: exponent =>
      if exponent.head? = some '-' then text
      else text.takeWhile (· != 'e') ++ 'e' :: '+' :: exponent

/-- The number is neither too small nor too large to be plain. -/
def PlainSize (x : Binary64) : Prop :=
  plainLeast.magnitude ≤ x.magnitude ∧ x.magnitude < plainBound.magnitude

instance (x : Binary64) : Decidable (PlainSize x) :=
  inferInstanceAs (Decidable (_ ∧ _))

/-- The text whose form is chosen by the size of the number, whatever its digits are. -/
def textBySize (x : Binary64) : List Char :=
  let number := Decimal.shortest queryLayout.tie x.abs
  if x.isZero then signText x.negative ++ ['0']
  else if PlainSize x then positionalText x.negative number
  else withPlus (exponentialText x.negative number)

theorem withPlus_exponent {front : List Char} (absent : 'e' ∉ front) (exponent : ℤ) :
    withPlus (front ++ 'e' :: integerText exponent) = front ++ exponentText (some exponent) := by
  rw [withPlus, dropWhile_before_sign absent]
  dsimp only
  by_cases negative : exponent < 0
  · rw [integerText, if_pos negative, if_pos (by rfl), exponentText, if_pos negative]
    rfl
  · have unsigned : ¬ (Nat.toDigits 10 exponent.natAbs).head? = some '-' := by
      intro minus
      have digit := Numeral.isDigit_toDigits (List.mem_of_head? minus)
      contradiction
    rw [integerText, if_neg negative, List.nil_append, if_neg unsigned, takeWhile_before_sign absent,
      exponentText, if_neg negative]

theorem withPlus_exponentialText {number : Decimal} (reduced : ¬ 10 ∣ number.digits)
    (negative : Bool) :
    withPlus (exponentialText negative number) =
      signText negative ++ Layout.scientific (Nat.toDigits 10 number.digits) number.leading := by
  have digits := significant_toDigits reduced
  obtain ⟨first, others, shape⟩ := List.exists_cons_of_ne_nil digits.nonempty
  rw [shape] at digits
  -- Without its exponent the number is a numeral of its own.
  have mantissa : WellFormed ⟨negative, [first], others, none⟩ :=
    ⟨List.cons_ne_nil _ _, digits.digit, fun zero => absurd zero digits.head_ne_zero⟩
  have absent : 'e' ∉ Numeral.text ⟨negative, [first], others, none⟩ := by
    intro letter
    rcases mantissa.mem_text rfl letter with same | same | same <;> contradiction
  have split : exponentialText negative number =
      Numeral.text ⟨negative, [first], others, none⟩ ++ 'e' :: integerText number.leading := by
    simp [exponentialText, shape, Numeral.text, exponentText]
  rw [split, withPlus_exponent absent, shape, scientific_cons]
  simp [Numeral.text, exponentText]

/-- The leading digit of the shortest digits tells the size of the number. -/
theorem plainPlace_iff_plainSize {x : Binary64} (nonzero : x.isZero = false) :
    PlainPlace (Decimal.shortest queryLayout.tie x.abs).leading ↔ PlainSize x := by
  have positive := Binary64.positive_abs nonzero
  have least := Decimal.nearestOnCoarsest_shortest positive queryLayout.tie
  have lower := least.le_leading_iff positive nearest?_plainLeast
  have upper := least.le_leading_iff positive nearest?_plainBound
  have same : x.abs.magnitude = x.magnitude := rfl
  rw [same] at lower upper
  rw [PlainPlace, PlainSize, lower, ← not_le, ← upper]
  apply and_congr_right
  intro _
  omega

theorem write_of_nonzero {x : Binary64} (nonzero : x.isZero = false) :
    queryLayout.write x =
      signText x.negative ++ queryLayout.decimal (Decimal.shortest queryLayout.tie x.abs) := by
  rw [Layout.write, if_neg (by simp [nonzero])]
  rfl

theorem write_eq_textBySize (x : Binary64) : queryLayout.write x = textBySize x := by
  rw [textBySize]
  cases zero : x.isZero with
  | true =>
      rw [Layout.write, if_pos zero, if_pos rfl]
      rfl
  | false =>
      have positive := Binary64.positive_abs zero
      have least := Decimal.nearestOnCoarsest_shortest positive queryLayout.tie
      have size := plainPlace_iff_plainSize zero
      rw [write_of_nonzero zero, if_neg Bool.false_ne_true]
      by_cases plain : PlainSize x
      · rw [if_pos plain, decimal_of_plainPlace (size.mpr plain)]
        rfl
      · rw [if_neg plain, decimal_of_not_plainPlace (size.not.mpr plain),
          withPlus_exponentialText (least.not_dvd_digits positive)]

/-- A number other than zero is written by the place of its leading digit, its digits being the fewest
that are read back; it makes no difference that the form is chosen by the size of the number. -/
theorem write_queryLayout_laidOut {x : Binary64} (nonzero : x.isZero = false) :
    Decimal.IsShortest x.abs (Decimal.shortest queryLayout.tie x.abs) ∧
      ¬ 10 ∣ (Decimal.shortest queryLayout.tie x.abs).digits ∧
      queryLayout.write x = textBySize x ∧
      LaidOut x.negative (Decimal.shortest queryLayout.tie x.abs) (queryLayout.write x) := by
  have positive := Binary64.positive_abs nonzero
  have least := Decimal.nearestOnCoarsest_shortest positive queryLayout.tie
  have reduced := least.not_dvd_digits positive
  refine ⟨Decimal.isShortest_shortest positive queryLayout.tie, reduced, write_eq_textBySize x, ?_⟩
  rw [write_of_nonzero nonzero]
  exact laidOut_decimal reduced x.negative

/-- The greatest number below the plain ones, with a sign. -/
theorem write_queryLayout_laidOut_edge :
    (⟨true, 4722366482869644, -72, by decide⟩ : Binary64).isZero = false ∧
      textBySize ⟨true, 4722366482869644, -72, by decide⟩ = "-9.999999999999997e-7".toList ∧
      LaidOut true ⟨9999999999999997, -22⟩ "-9.999999999999997e-7".toList := by
  have nonzero : (⟨true, 4722366482869644, -72, by decide⟩ : Binary64).isZero = false := rfl
  have digits : Decimal.shortest queryLayout.tie
      (⟨true, 4722366482869644, -72, by decide⟩ : Binary64).abs = ⟨9999999999999997, -22⟩ := by
    decide +kernel
  have text : queryLayout.write ⟨true, 4722366482869644, -72, by decide⟩ =
      "-9.999999999999997e-7".toList := by
    decide +kernel
  obtain ⟨_, _, size, laidOut⟩ := write_queryLayout_laidOut nonzero
  rw [text] at size laidOut
  rw [digits] at laidOut
  exact ⟨nonzero, size.symm, laidOut⟩

end RequestLine
