import RequestLine.Json.Reader
import RequestLine.Proofs.Number.Integers
import RequestLine.Proofs.Number.Shortest
import RequestLine.Proofs.Query.Arrays

/-!
The text of a value in a query against that of ECMAScript's `String`.  The two agree but for the
number zero with a sign, which a script writes without it.
-/

namespace RequestLine

/-! ### Numbers -/

/-- The text that `Number::toString` gives to `s * 10 ^ (n - k)`, where `s` has `k` digits. -/
def scriptDecimal (number : Decimal) : List Char :=
  let digits := Nat.toDigits 10 number.digits
  let k : Int := digits.length
  let n := k + number.place
  if -5 ≤ n ∧ n ≤ 21 then
    if k ≤ n then digits ++ List.replicate (n - k).toNat '0'
    else if 0 < n then digits.take n.toNat ++ '.' :: digits.drop n.toNat
    else '0' :: '.' :: List.replicate (-n).toNat '0' ++ digits
  else
    let sign := if n < 0 then '-' else '+'
    let exponent := 'e' :: sign :: Nat.toDigits 10 (n - 1).natAbs
    if k = 1 then digits ++ exponent else digits.take 1 ++ '.' :: digits.drop 1 ++ exponent

/-- `Number::toString`, in which the digits of a positive number are chosen by `choice`. -/
def scriptNumber (choice : Binary64 → Decimal) (x : Binary64) : List Char :=
  if x.isZero then ['0']
  else if x.negative then '-' :: scriptDecimal (choice x.abs)
  else scriptDecimal (choice x.abs)

theorem decimal_queryLayout (number : Decimal) :
    queryLayout.decimal number = scriptDecimal number := by
  have some : 0 < (Nat.toDigits 10 number.digits).length := Nat.length_toDigits_pos
  have whole : queryLayout.wholeEnding.toList = [] := rfl
  have lower : queryLayout.plainFrom = -6 := rfl
  have upper : queryLayout.plainBelow = 21 := rfl
  simp only [Layout.decimal, Layout.plain, Layout.scientific, Layout.zeros, scriptDecimal, whole,
    lower, upper, List.append_nil]
  generalize Nat.toDigits 10 number.digits = digits at *
  generalize number.place = place
  by_cases plain : -5 ≤ (digits.length : Int) + place ∧ (digits.length : Int) + place ≤ 21
  · rw [if_pos (by omega), if_pos plain]
    by_cases integer : 0 ≤ place
    · rw [if_pos integer, if_pos (by omega), add_sub_cancel_left]
    · have beyond : ¬ (digits.length : Int) ≤ (digits.length : Int) + place := by omega
      rw [if_neg integer, if_neg beyond]
  · have sign : (place + (digits.length : Int) - 1 < 0) = ((digits.length : Int) + place < 0) := by
      apply propext
      omega
    have exponent : (place + (digits.length : Int) - 1).natAbs =
        ((digits.length : Int) + place - 1).natAbs := by omega
    rw [if_neg (by omega), if_neg plain, exponent]
    simp only [sign]
    by_cases single : (digits.length : Int) = 1
    · have within : digits.length ≤ 1 := by omega
      rw [if_pos within, if_pos single, List.take_of_length_le within,
        List.drop_eq_nil_of_le within, List.append_nil, List.append_nil]
    · rw [if_neg (by omega), if_neg single]
      simp

example : scriptDecimal ⟨1, -6⟩ = "0.000001".toList ∧ scriptDecimal ⟨15, -8⟩ = "1.5e-7".toList := by
  decide

theorem write_queryLayout {x : Binary64} (plain : ¬ (x.negative = true ∧ x.isZero = true)) :
    queryLayout.write x = scriptNumber (Decimal.shortest queryLayout.tie) x := by
  rw [Layout.write, scriptNumber, decimal_queryLayout]
  cases zero : x.isZero with
  | true =>
      have unsigned : x.negative = false := by simpa [zero] using plain
      rw [unsigned]
      rfl
  | false =>
      cases x.negative with
      | true => rfl
      | false => rfl

/-- A zero with a sign is written with it. -/
theorem write_queryLayout_negative_zero {x : Binary64} (negative : x.negative = true)
    (zero : x.isZero = true) (choice : Binary64 → Decimal) :
    (scriptNumber choice x).length < (queryLayout.write x).length := by
  rw [Layout.write, scriptNumber, if_pos zero, if_pos zero, if_pos negative]
  decide

/-- An integer of at most 53 bits has its own digits. -/
theorem scriptDecimal_of_value_eq {d : Decimal} {n : Nat} (place : 0 ≤ d.place) (value : d.value = n)
    (some : 0 < n) (bound : n ≤ 2 ^ 53) : scriptDecimal d = Nat.toDigits 10 n := by
  have digitsPos : 0 < d.digits := by
    rw [← Decimal.value_pos_iff, value]
    exact_mod_cast some
  obtain ⟨digits, exponent⟩ := d
  obtain ⟨tens, rfl⟩ := Int.eq_ofNat_of_zero_le place
  have product : digits * 10 ^ tens = n := by
    rw [Decimal.value_eq, zpow_natCast] at value
    exact_mod_cast value
  have whole : Nat.toDigits 10 n = Nat.toDigits 10 digits ++ List.replicate tens '0' := by
    rw [← product, toDigits_mul_pow digitsPos]
  have length : (Nat.toDigits 10 n).length ≤ 16 :=
    (Nat.length_toDigits_le_iff (by decide) (by decide)).mpr (bound.trans_lt (by decide))
  rw [whole, List.length_append, List.length_replicate] at length
  simp only [scriptDecimal]
  rw [if_pos ⟨by omega, by omega⟩, if_pos (by omega), add_sub_cancel_left, Int.toNat_natCast, whole]

theorem integerText_eq_scriptNumber {n : Int} (bound : n.natAbs ≤ 2 ^ 53) (tie : Tie) :
    integerText n = scriptNumber (Decimal.shortest tie) (.ofInt n) := by
  by_cases zero : n = 0
  · rw [zero, Binary64.ofInt_zero]
    rfl
  · obtain ⟨sign, positive, magnitude⟩ := Binary64.ofInt_spec zero bound
    obtain ⟨place, value⟩ := Binary64.value_shortest positive magnitude bound tie
    have digits := scriptDecimal_of_value_eq place value (Int.natAbs_pos.mpr zero) bound
    have nonzero : (Binary64.ofInt n).isZero = false := by
      have some : 0 < (Binary64.ofInt n).mantissa := positive.2
      rw [Binary64.isZero, beq_eq_false_iff_ne]
      omega
    rw [integerText, scriptNumber, nonzero, sign, digits]
    by_cases negative : n < 0
    · simp [negative]
    · simp [negative]

/-! ### Values -/

mutual

/-- `String` of a value.  The items of an array are joined by commas, null being empty there. -/
def Json.scriptText (choice : Binary64 → Decimal) : Json → List Char
  | .null => "null".toList
  | .bool value => (if value then "true" else "false").toList
  | .integer value => scriptNumber choice (.ofInt value)
  | .real value => scriptNumber choice value
  | .string text => text.toList
  | .array items => [','].intercalate (Json.scriptItems choice items)
  | .object _ => "[object Object]".toList

def Json.scriptItems (choice : Binary64 → Decimal) : List Json → List (List Char)
  | [] => []
  | .null :: rest => [] :: Json.scriptItems choice rest
  | item :: rest => item.scriptText choice :: Json.scriptItems choice rest

end

namespace Json

/-- The size of every integer outside of objects is at most `2 ^ 53`. -/
inductive IntegersExact : Json → Prop where
  | null : IntegersExact .null
  | bool (value : Bool) : IntegersExact (.bool value)
  | integer {value : Int} (lower : -2 ^ 53 ≤ value) (upper : value ≤ 2 ^ 53) :
      IntegersExact (.integer value)
  | real (value : Binary64) : IntegersExact (.real value)
  | string (text : String) : IntegersExact (.string text)
  | array {items : List Json} (inner : ∀ item ∈ items, IntegersExact item) :
      IntegersExact (.array items)
  | object (members : List (String × Json)) : IntegersExact (.object members)

/-- The value is a zero with a sign, or an array that shows one. -/
inductive ShowsNegativeZero : Json → Prop where
  | zero {value : Binary64} (negative : value.negative = true) (zero : value.isZero = true) :
      ShowsNegativeZero (.real value)
  | item {items : List Json} {item : Json} (member : item ∈ items)
      (shown : ShowsNegativeZero item) : ShowsNegativeZero (.array items)

/-- The text that a script gives to an item of an array. -/
def scriptItem (choice : Binary64 → Decimal) : Json → List Char
  | .null => []
  | item => item.scriptText choice

theorem scriptItems_eq_map (choice : Binary64 → Decimal) (items : List Json) :
    scriptItems choice items = items.map (scriptItem choice) := by
  induction items with
  | nil => rfl
  | cons item rest ih => cases item <;> simp only [scriptItems, scriptItem, List.map_cons, ih]

/-- The text is that of the script, or longer if the condition holds. -/
structure SameUnless (condition : Prop) (script text : List Char) : Prop where
  longer : condition → script.length < text.length
  same : ¬ condition → text = script

theorem SameUnless.refl {condition : Prop} (never : ¬ condition) (text : List Char) :
    SameUnless condition text text :=
  ⟨fun holds => absurd holds never, fun _ => rfl⟩

theorem SameUnless.length_le {condition : Prop} {script text : List Char}
    (related : SameUnless condition script text) : script.length ≤ text.length := by
  by_cases holds : condition
  · exact (related.longer holds).le
  · rw [related.same holds]

theorem SameUnless.eq_iff {condition : Prop} {script text : List Char}
    (related : SameUnless condition script text) : text = script ↔ ¬ condition := by
  refine ⟨?_, related.same⟩
  intro same holds
  have longer := related.longer holds
  rw [same] at longer
  exact lt_irrefl _ longer

theorem SameUnless.intercalate {α : Type} {condition : α → Prop} {script text : α → List Char}
    {items : List α} (sign : Char)
    (related : ∀ item ∈ items, SameUnless (condition item) (script item) (text item)) :
    SameUnless (∃ item ∈ items, condition item) ([sign].intercalate (items.map script))
      ([sign].intercalate (items.map text)) := by
  refine ⟨?_, ?_⟩
  · intro some
    obtain ⟨item, member, holds⟩ := some
    simp only [Text.length_intercalate, List.length_flatten, List.map_map, List.length_map]
    apply Nat.add_lt_add_right
    apply List.sum_lt_sum
    · intro other among
      exact (related other among).length_le
    · exact ⟨item, member, (related item member).longer holds⟩
  · intro none
    congr 1
    apply List.map_congr_left
    intro item member
    exact (related item member).same fun holds => none ⟨item, member, holds⟩

theorem showsNegativeZero_array_iff {items : List Json} :
    (Json.array items).ShowsNegativeZero ↔ ∃ item ∈ items, item.ShowsNegativeZero := by
  apply Iff.intro
  · intro shown
    cases shown with
    | item member inner => exact ⟨_, member, inner⟩
  · rintro ⟨item, member, inner⟩
    exact .item member inner

theorem queryText_integer (value : Int) : (Json.integer value).queryText = integerText value := rfl

theorem queryText_real (value : Binary64) :
    (Json.real value).queryText = queryLayout.write value := rfl

section

variable (choice : Binary64 → Decimal)

theorem scriptText_integer (value : Int) :
    (Json.integer value).scriptText choice = scriptNumber choice (.ofInt value) := rfl

theorem scriptText_real (value : Binary64) :
    (Json.real value).scriptText choice = scriptNumber choice value := rfl

theorem scriptText_array (items : List Json) :
    (Json.array items).scriptText choice = [','].intercalate (items.map (scriptItem choice)) := by
  rw [← scriptItems_eq_map]
  rfl

end

theorem SameUnless.item {choice : Binary64 → Decimal} {item : Json}
    (related : SameUnless item.ShowsNegativeZero (item.scriptText choice) item.queryText) :
    SameUnless item.ShowsNegativeZero (scriptItem choice item) item.itemText := by
  cases item with
  | null => exact .refl (by rintro ⟨⟩) []
  | bool | integer | real | string | array | object => exact related

/-- The text is that of a script, and longer where a zero is shown with its sign. -/
theorem sameUnless_queryText {v : Json} (exact : v.IntegersExact) :
    SameUnless v.ShowsNegativeZero (v.scriptText (Decimal.shortest queryLayout.tie))
      v.queryText := by
  induction exact with
  | null => exact .refl (by rintro ⟨⟩) _
  | bool value =>
      cases value with
      | true => exact .refl (by rintro ⟨⟩) _
      | false => exact .refl (by rintro ⟨⟩) _
  | string text => exact .refl (by rintro ⟨⟩) _
  | object members => exact .refl (by rintro ⟨⟩) _
  | @integer value lower upper =>
      rw [queryText_integer, scriptText_integer, integerText_eq_scriptNumber (by omega) queryLayout.tie]
      exact .refl (by rintro ⟨⟩) _
  | real value =>
      rw [queryText_real, scriptText_real]
      refine ⟨?_, ?_⟩
      · intro shown
        cases shown with
        | zero negative zero => exact write_queryLayout_negative_zero negative zero _
      · intro hidden
        exact write_queryLayout fun both => hidden (.zero both.1 both.2)
  | array _ ih =>
      rw [queryText_array, scriptText_array, showsNegativeZero_array_iff]
      exact .intercalate ',' fun item member => (ih item member).item

end Json

/-- The digits that are found are ones that `Number::toString` may choose, the nearest of these, and with
them the text of a value is that of a script exactly if no zero is shown with its sign. -/
theorem queryText_eq_scriptText_iff {v : Json} (exact : v.IntegersExact) :
    (∀ x : Binary64, x.Positive → Decimal.IsShortest x (Decimal.shortest queryLayout.tie x)) ∧
      (v.queryText = v.scriptText (Decimal.shortest queryLayout.tie) ↔ ¬ v.ShowsNegativeZero) :=
  ⟨fun _ positive => Decimal.isShortest_shortest positive queryLayout.tie,
    (Json.sameUnless_queryText exact).eq_iff⟩

/-- Null in an array, the largest of the integers, and a number with an exponent. -/
theorem queryText_eq_scriptText_iff_array :
    (Json.array [.null, .integer (2 ^ 53), .real ⟨false, 7629394531250000, 17, by decide⟩]).scriptText
      (Decimal.shortest queryLayout.tie) = ",9007199254740992,1e+21".toList := by
  have exact : (Json.array [.null, .integer (2 ^ 53),
      .real ⟨false, 7629394531250000, 17, by decide⟩]).IntegersExact := by
    refine .array ?_
    simp only [List.forall_mem_cons]
    exact ⟨.null, .integer (by decide) (by decide), .real _, List.forall_mem_nil _⟩
  rw [← (queryText_eq_scriptText_iff exact).2.mpr]
  · decide +kernel
  · intro shown
    obtain ⟨item, member, inner⟩ := Json.showsNegativeZero_array_iff.mp shown
    simp only [List.mem_cons, List.not_mem_nil, or_false] at member
    rcases member with rfl | rfl | rfl
    · cases inner
    · cases inner
    · cases inner with
      | zero negative _ => contradiction

theorem queryText_negative_zero :
    Json.read "-0".toList = .ok (.real Binary64.zero.neg) ∧
      (Json.real Binary64.zero.neg).queryText = "-0".toList ∧
      ∀ choice, (Json.real Binary64.zero.neg).scriptText choice = "0".toList := by
  refine ⟨?_, rfl, fun _ => rfl⟩
  have real : Numeral.real? ⟨true, ['0'], [], none⟩ = some Binary64.zero.neg := by decide +kernel
  have scalar : Json.scalar? ['-', '0'] =
      ((Numeral.real? ⟨true, ['0'], [], none⟩).map Json.real).bind fun value => some (value, []) := rfl
  have read : Json.read ['-', '0'] =
      Json.ofLexeme Json.scalar? ['-', '0'] >>= fun taken =>
        if Json.skipSpace taken.2 = [] then .ok taken.1 else .error .malformed := rfl
  change Json.read ['-', '0'] = _
  rw [read, Json.ofLexeme, scalar, real]
  rfl

end RequestLine
