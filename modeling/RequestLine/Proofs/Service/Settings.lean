import RequestLine.Proofs.Except
import RequestLine.Proofs.Json.Numeral
import RequestLine.Service.Settings

/-!
The settings that texts stand for.  A number is read digit by digit and never goes beyond its bound on
the way, so a text has one exactly if it is a numeral of a number within the bound, however many zeros
the numeral begins with.
-/

namespace RequestLine

open Numeral (eq_zero_of_head_toDigits)

/-- Decimal digits, zeros at the front among them, and the number that they make. -/
structure DigitsOf (value : Nat) (digits : List Char) : Prop where
  some : digits ≠ []
  digit : ∀ c ∈ digits, c.isDigit = true
  value : Nat.ofDigitChars 10 digits 0 = value

/-- The text is digits with a plus sign before them or without. -/
def IsNumeral (text : String) (value : Nat) : Prop :=
  ∃ digits, DigitsOf value digits ∧ (text.toList = digits ∨ text.toList = '+' :: digits)

theorem digitsOf_toDigits (n : Nat) : DigitsOf n (Nat.toDigits 10 n) where
  some := Nat.toDigits_ne_nil
  digit _ member := Numeral.isDigit_toDigits member
  value := Nat.ofDigitChars_ten_toDigits

theorem le_ofDigitChars (digits : List Char) (start : Nat) :
    start ≤ Nat.ofDigitChars 10 digits start := by
  rw [Nat.ofDigitChars_eq_ofDigitChars_zero]
  have factor : 0 < 10 ^ digits.length := Nat.pow_pos (by decide)
  exact Nat.le_add_right_of_le (Nat.le_mul_of_pos_left start factor)

theorem appendDigit?_eq_some_iff {bound number next : Nat} {digit : Char} :
    appendDigit? bound number digit = some next ↔
      digit.isDigit = true ∧ Nat.ofDigitChars 10 [digit] number = next ∧ next < bound := by
  unfold appendDigit?
  split
  · rename_i isDigit
    dsimp only
    split
    · rename_i below
      simp only [isDigit, Option.some.injEq, true_and]
      apply Iff.intro
      · rintro rfl
        exact ⟨rfl, below⟩
      · exact And.left
    · rename_i beyond
      simp only [isDigit, reduceCtorEq, true_and, false_iff]
      rintro ⟨rfl, below⟩
      exact beyond below
  · rename_i other
    simp [other]

/-- Digits are read up to the last exactly if the number that they make is within the bound: the numbers
on the way are not greater. -/
theorem foldlM_appendDigit?_eq_some_iff {bound value : Nat} {digits : List Char} :
    ∀ {start : Nat}, start < bound →
      (digits.foldlM (appendDigit? bound) start = some value ↔
        (∀ c ∈ digits, c.isDigit = true) ∧ Nat.ofDigitChars 10 digits start = value ∧
          value < bound) := by
  induction digits with
  | nil =>
      intro start below
      simp only [List.foldlM_nil, Option.pure_def, Option.some.injEq, Nat.ofDigitChars_nil]
      apply Iff.intro
      · rintro rfl
        exact ⟨by simp, rfl, below⟩
      · exact fun read => read.2.1
  | cons digit digits ih =>
      intro start _
      have shape : Nat.ofDigitChars 10 (digit :: digits) start =
          Nat.ofDigitChars 10 digits (Nat.ofDigitChars 10 [digit] start) := by
        rw [← Nat.ofDigitChars_append, List.singleton_append]
      rw [List.foldlM_cons, Option.bind_eq_bind, Option.bind_eq_some_iff, shape, List.forall_mem_cons]
      apply Iff.intro
      · intro read
        obtain ⟨next, first, others⟩ := read
        obtain ⟨isDigit, rfl, below⟩ := appendDigit?_eq_some_iff.mp first
        obtain ⟨areDigits, same, within⟩ := (ih below).mp others
        exact ⟨⟨isDigit, areDigits⟩, same, within⟩
      · intro numeral
        obtain ⟨⟨isDigit, areDigits⟩, same, within⟩ := numeral
        have below : Nat.ofDigitChars 10 [digit] start < bound := by
          have least := le_ofDigitChars digits (Nat.ofDigitChars 10 [digit] start)
          omega
        exact ⟨_, appendDigit?_eq_some_iff.mpr ⟨isDigit, rfl, below⟩,
          (ih below).mpr ⟨areDigits, same, within⟩⟩

theorem digits_read_iff {bound value : Nat} (positive : 0 < bound) (digits : List Char) :
    (if digits.isEmpty then none else digits.foldlM (appendDigit? bound) 0) = some value ↔
      DigitsOf value digits ∧ value < bound := by
  cases digits with
  | nil => simpa using fun numeral : DigitsOf value [] => absurd rfl numeral.some
  | cons digit digits =>
      rw [List.isEmpty_cons, if_neg Bool.false_ne_true, foldlM_appendDigit?_eq_some_iff positive]
      apply Iff.intro
      · intro read
        exact ⟨⟨List.cons_ne_nil _ _, read.1, read.2.1⟩, read.2.2⟩
      · intro numeral
        exact ⟨numeral.1.digit, numeral.1.value, numeral.2⟩

theorem naturalBelow?_eq_some_iff {bound value : Nat} (positive : 0 < bound) (text : String) :
    naturalBelow? bound text = some value ↔ IsNumeral text value ∧ value < bound := by
  unfold naturalBelow? IsNumeral
  split
  · rename_i rest signed
    rw [digits_read_iff positive]
    -- A plus sign is no digit, so it cannot be the first of the digits.
    have only : ∀ digits, DigitsOf value digits →
        ('+' :: rest = digits ∨ '+' :: rest = '+' :: digits) → digits = rest := by
      rintro digits numeral (rfl | same)
      · have digit := numeral.digit '+' List.mem_cons_self
        contradiction
      · exact (List.cons.inj same).2.symm
    rw [signed]
    apply Iff.intro
    · intro read
      exact ⟨⟨rest, read.1, .inr rfl⟩, read.2⟩
    · intro numeral
      obtain ⟨⟨digits, digitsOf, cut⟩, below⟩ := numeral
      obtain rfl := only digits digitsOf cut
      exact ⟨digitsOf, below⟩
  · rename_i unsigned
    rw [digits_read_iff positive]
    apply Iff.intro
    · intro read
      exact ⟨⟨text.toList, read.1, .inl rfl⟩, read.2⟩
    · intro numeral
      obtain ⟨⟨digits, digitsOf, rfl | signed⟩, below⟩ := numeral
      · exact ⟨digitsOf, below⟩
      · exact absurd signed (unsigned digits)

namespace Settings

/-- A number that is left out is none, and any other is that of its text. -/
inductive Reads (greatest : Nat) : Option String → Option Nat → Prop where
  | absent : Reads greatest none none
  | given {text : String} {value : Nat} (numeral : IsNumeral text value) (bound : value ≤ greatest) :
      Reads greatest (some text) (some value)

/-- There is a text, and it is no numeral of a number that the setting can have. -/
def Bad (greatest : Nat) (setting : Option String) (text : String) : Prop :=
  setting = some text ∧ ∀ value ≤ greatest, ¬ IsNumeral text value

section

variable {lookup : String → Option String} {name : String} {greatest : Nat}

theorem lookupNatural_eq_ok_iff {number : Option Nat} :
    lookupNatural lookup name (greatest + 1) = .ok number ↔ Reads greatest (lookup name) number := by
  unfold lookupNatural
  cases lookup name with
  | none =>
      apply Iff.intro
      · intro same
        cases same
        exact .absent
      · rintro ⟨⟩
        rfl
  | some text =>
      dsimp only
      apply Iff.intro
      · intro read
        split at read
        · contradiction
        · rename_i value found
          obtain ⟨numeral, below⟩ := (naturalBelow?_eq_some_iff (by omega) text).mp found
          cases read
          exact .given numeral (by omega)
      · intro read
        cases read with
        | given numeral bound =>
            rw [(naturalBelow?_eq_some_iff (by omega) text).mpr ⟨numeral, by omega⟩]

theorem lookupNatural_eq_error_iff {error : SettingError} :
    lookupNatural lookup name (greatest + 1) = .error error ↔
      ∃ text, Bad greatest (lookup name) text ∧ error = ⟨name, text⟩ := by
  unfold lookupNatural Bad
  cases lookup name with
  | none => simp
  | some text =>
      dsimp only
      cases found : naturalBelow? (greatest + 1) text with
      | none =>
          have bad : ∀ value ≤ greatest, ¬ IsNumeral text value := by
            intro value bound numeral
            have read := (naturalBelow?_eq_some_iff (by omega) text).mpr
              ⟨numeral, Nat.lt_succ_of_le bound⟩
            rw [found] at read
            contradiction
          apply Iff.intro
          · intro same
            cases same
            exact ⟨text, ⟨rfl, bad⟩, rfl⟩
          · rintro ⟨other, ⟨same, _⟩, rfl⟩
            obtain rfl := Option.some.inj same
            rfl
      | some value =>
          obtain ⟨numeral, below⟩ := (naturalBelow?_eq_some_iff (by omega) text).mp found
          simp only [reduceCtorEq, false_iff]
          rintro ⟨other, ⟨same, bad⟩, _⟩
          obtain rfl := Option.some.inj same
          exact bad value (by omega) numeral

theorem ofLookup_eq_bind (lookup : String → Option String) :
    ofLookup lookup = (do
      let port ← lookupNatural lookup "PORT" (65535 + 1)
      let timeout ← lookupNatural lookup "REQLINE_TIMEOUT_MS" (18446744073709551615 + 1)
      return {
        host := (lookup "HOST").getD "127.0.0.1"
        port := port.getD 3000
        timeout }) := rfl

theorem ofLookup_eq_ok_iff {settings : Settings} :
    ofLookup lookup = .ok settings ↔
      settings.host = (lookup "HOST").getD "127.0.0.1" ∧
      (∃ port, Reads 65535 (lookup "PORT") port ∧ settings.port = port.getD 3000) ∧
      Reads 18446744073709551615 (lookup "REQLINE_TIMEOUT_MS") settings.timeout := by
  simp only [ofLookup_eq_bind, bind_eq_ok_iff, lookupNatural_eq_ok_iff]
  apply Iff.intro
  · intro read
    obtain ⟨port, readPort, timeout, readTimeout, same⟩ := read
    obtain rfl := Except.ok.inj same
    exact ⟨rfl, ⟨port, readPort, rfl⟩, readTimeout⟩
  · intro read
    obtain ⟨host, port, timeout⟩ := settings
    obtain ⟨rfl, ⟨port, readPort, rfl⟩, readTimeout⟩ := read
    exact ⟨port, readPort, timeout, readTimeout, rfl⟩

theorem ofLookup_eq_error_iff {error : SettingError} :
    ofLookup lookup = .error error ↔
      (∃ text, Bad 65535 (lookup "PORT") text ∧ error = ⟨"PORT", text⟩) ∨
      (∃ port, Reads 65535 (lookup "PORT") port) ∧
        ∃ text, Bad 18446744073709551615 (lookup "REQLINE_TIMEOUT_MS") text ∧
          error = ⟨"REQLINE_TIMEOUT_MS", text⟩ := by
  simp only [ofLookup_eq_bind, bind_eq_error_iff, lookupNatural_eq_ok_iff,
    lookupNatural_eq_error_iff]
  apply or_congr_right
  apply Iff.intro
  · intro failed
    obtain ⟨port, readPort, bad | ⟨timeout, _, never⟩⟩ := failed
    · exact ⟨⟨port, readPort⟩, bad⟩
    · cases never
  · intro failed
    obtain ⟨⟨port, readPort⟩, bad⟩ := failed
    exact ⟨port, readPort, .inl bad⟩

end

theorem address_eq (settings : Settings) :
    settings.address = settings.host ++ ":" ++ .ofList (Nat.toDigits 10 settings.port) := by
  rw [← Nat.toString_eq_ofList_toDigits]
  rfl

/-- The settings can be had exactly if the port and the timeout are left out or numerals of numbers of 16
and of 64 bits, and then have these numbers; otherwise the error has the name and the text of the first
of the two that is bad.  The address ends in the port without a zero at the front. -/
theorem ofLookup_by_numerals (lookup : String → Option String) :
    ((∃ settings, ofLookup lookup = .ok settings) ↔
      (∃ port, Reads 65535 (lookup "PORT") port) ∧
        ∃ timeout, Reads 18446744073709551615 (lookup "REQLINE_TIMEOUT_MS") timeout) ∧
    (∀ settings, ofLookup lookup = .ok settings ↔
      settings.host = (lookup "HOST").getD "127.0.0.1" ∧
      (∃ port, Reads 65535 (lookup "PORT") port ∧ settings.port = port.getD 3000) ∧
      Reads 18446744073709551615 (lookup "REQLINE_TIMEOUT_MS") settings.timeout) ∧
    (∀ error, ofLookup lookup = .error error ↔
      (∃ text, Bad 65535 (lookup "PORT") text ∧ error = ⟨"PORT", text⟩) ∨
      (∃ port, Reads 65535 (lookup "PORT") port) ∧
        ∃ text, Bad 18446744073709551615 (lookup "REQLINE_TIMEOUT_MS") text ∧
          error = ⟨"REQLINE_TIMEOUT_MS", text⟩) ∧
    ∀ settings : Settings, ∃ digits,
      settings.address = settings.host ++ ":" ++ .ofList digits ∧ DigitsOf settings.port digits ∧
        (digits.head? = some '0' → digits = ['0']) := by
  refine ⟨?_, fun _ => ofLookup_eq_ok_iff, fun _ => ofLookup_eq_error_iff, ?_⟩
  · apply Iff.intro
    · intro accepted
      obtain ⟨settings, read⟩ := accepted
      obtain ⟨_, ⟨port, readPort, _⟩, readTimeout⟩ := ofLookup_eq_ok_iff.mp read
      exact ⟨⟨port, readPort⟩, settings.timeout, readTimeout⟩
    · intro readable
      obtain ⟨⟨port, readPort⟩, timeout, readTimeout⟩ := readable
      exact ⟨⟨_, port.getD 3000, timeout⟩,
        ofLookup_eq_ok_iff.mpr ⟨rfl, ⟨port, readPort, rfl⟩, readTimeout⟩⟩
  · intro settings
    exact ⟨_, settings.address_eq, digitsOf_toDigits settings.port, eq_zero_of_head_toDigits⟩

example :
    ofLookup (List.lookup ·
        [("PORT", "+0065535"), ("REQLINE_TIMEOUT_MS", "18446744073709551616")]) =
      .error ⟨"REQLINE_TIMEOUT_MS", "18446744073709551616"⟩ :=
  rfl

end Settings
end RequestLine
