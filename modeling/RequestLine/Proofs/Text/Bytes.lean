import Mathlib.Data.List.Basic
import RequestLine.Proofs.Text.Cutting

/-!
The bars of a text, looked for in its UTF-8 bytes by their places.  Every place that is asked for is
there, and the bytes say of the bars what the characters do: no byte of a longer character is one of a
bar or of a space.
-/

namespace RequestLine.Text

def utf8Bytes (text : List Char) : List UInt8 :=
  text.flatMap String.utf8EncodeChar

/-- The byte so far before a place, if the text does not begin in between.  There is no result if the
place of that byte is outside. -/
def byteBefore? (bytes : List UInt8) (place distance : Nat) : Option (Option UInt8) :=
  if distance ≤ place then (bytes[place - distance]?).map some else some none

/-- Whether the byte at a place, if it is a bar, has exactly one space on each side. -/
def barSpacedAt? (bytes : List UInt8) (place : Nat) : Option Bool := do
  if (← bytes[place]?) ≠ '|'.toUInt8 then
    return true
  else if (← byteBefore? bytes place 1) ≠ some ' '.toUInt8 ∨
      bytes[place + 1]? ≠ some ' '.toUInt8 then
    return false
  else
    return (← byteBefore? bytes place 2) ≠ some ' '.toUInt8 && bytes[place + 2]? ≠ some ' '.toUInt8

/-- Place by place, up to the first bar that is spaced badly. -/
def bytesSpaced? (bytes : List UInt8) : Option Bool :=
  (List.range bytes.length).allM (barSpacedAt? bytes)

/-! ### Bytes of characters -/

theorem toNat_toUInt8 {c : Char} (ascii : c.toNat < 128) : c.toUInt8.toNat = c.toNat := by
  change c.val.toUInt8.toNat = c.val.toNat
  rw [UInt32.toNat_toUInt8]
  exact Nat.mod_eq_of_lt (Nat.lt_trans ascii (by decide))

theorem utf8EncodeChar_of_ascii {c : Char} (ascii : c.toNat < 128) :
    String.utf8EncodeChar c = [c.toUInt8] := by
  have small : c.val.toNat ≤ 127 := Nat.le_of_lt_succ ascii
  simp only [String.utf8EncodeChar, if_pos small]
  rfl

theorem le_of_mem_utf8EncodeChar {c : Char} {byte : UInt8} (large : 128 ≤ c.toNat)
    (member : byte ∈ String.utf8EncodeChar c) : 128 ≤ byte.toNat := by
  have longer : ¬ c.val.toNat ≤ 127 := Nat.not_le.mpr large
  simp only [String.utf8EncodeChar, if_neg longer] at member
  split at member
  · simp only [List.mem_cons, List.not_mem_nil, or_false] at member
    rcases member with rfl | rfl <;> rw [UInt8.toNat_ofNat'] <;> omega
  · split at member
    · simp only [List.mem_cons, List.not_mem_nil, or_false] at member
      rcases member with rfl | rfl | rfl <;> rw [UInt8.toNat_ofNat'] <;> omega
    · simp only [List.mem_cons, List.not_mem_nil, or_false] at member
      rcases member with rfl | rfl | rfl | rfl <;> rw [UInt8.toNat_ofNat'] <;> omega

/-- A byte below 128 is a character of its own. -/
theorem eq_of_mem_utf8EncodeChar {c sign : Char} (ascii : sign.toNat < 128)
    (member : sign.toUInt8 ∈ String.utf8EncodeChar c) : c = sign := by
  by_cases large : 128 ≤ c.toNat
  · have bound := le_of_mem_utf8EncodeChar large member
    rw [toNat_toUInt8 ascii] at bound
    omega
  · have small : c.toNat < 128 := Nat.not_le.mp large
    rw [utf8EncodeChar_of_ascii small, List.mem_singleton] at member
    have same := congrArg UInt8.toNat member
    rw [toNat_toUInt8 ascii, toNat_toUInt8 small] at same
    exact (Char.toNat_inj.mp same).symm

theorem utf8Bytes_append (front back : List Char) :
    utf8Bytes (front ++ back) = utf8Bytes front ++ utf8Bytes back :=
  List.flatMap_append

section Sign

variable {sign : Char} (ascii : sign.toNat < 128)
include ascii

theorem head_utf8Bytes (text : List Char) :
    (utf8Bytes text).head? = some sign.toUInt8 ↔ text.head? = some sign := by
  cases text with
  | nil => simp [utf8Bytes]
  | cons c rest =>
      have some : String.utf8EncodeChar c ≠ [] := String.utf8EncodeChar_ne_nil
      rw [utf8Bytes, List.flatMap_cons, List.head?_append_of_ne_nil _ some, List.head?_cons]
      apply Iff.intro
      · intro first
        rw [eq_of_mem_utf8EncodeChar ascii (List.mem_of_head? first)]
      · intro same
        rw [Option.some.inj same, utf8EncodeChar_of_ascii ascii]
        rfl

theorem getLast_utf8Bytes (text : List Char) :
    (utf8Bytes text).getLast? = some sign.toUInt8 ↔ text.getLast? = some sign := by
  rcases List.eq_nil_or_concat text with empty | ⟨front, c, shape⟩
  · simp [empty, utf8Bytes]
  · have some : String.utf8EncodeChar c ≠ [] := String.utf8EncodeChar_ne_nil
    rw [shape, List.concat_eq_append, utf8Bytes_append, List.getLast?_concat, utf8Bytes,
      utf8Bytes, List.flatMap_singleton, List.getLast?_append_of_ne_nil _ some]
    apply Iff.intro
    · intro last
      rw [eq_of_mem_utf8EncodeChar ascii (List.mem_of_getLast? last)]
    · intro same
      rw [Option.some.inj same, utf8EncodeChar_of_ascii ascii]
      rfl

/-- The bytes are cut at a sign exactly where the characters are. -/
theorem utf8Bytes_eq_append_iff (text : List Char) (before after : List UInt8) :
    utf8Bytes text = before ++ sign.toUInt8 :: after ↔
      ∃ front back, text = front ++ sign :: back ∧ before = utf8Bytes front ∧
        after = utf8Bytes back := by
  apply Iff.intro
  · intro cut
    induction text generalizing before with
    | nil => simp [utf8Bytes] at cut
    | cons c rest ih =>
        rw [utf8Bytes, List.flatMap_cons] at cut
        rcases List.append_eq_append_iff.mp cut with ⟨gap, rfl, later⟩ | ⟨inner, shape, later⟩
        · obtain ⟨front, back, rfl, rfl, rfl⟩ := ih gap later
          exact ⟨c :: front, back, rfl, rfl, rfl⟩
        · cases inner with
          | nil =>
              obtain ⟨front, back, rfl, none, rfl⟩ := ih [] later.symm
              refine ⟨c :: front, back, rfl, ?_, rfl⟩
              rw [← List.append_nil before, ← shape, utf8Bytes, List.flatMap_cons, ← utf8Bytes, ← none,
                List.append_nil]
          | cons byte inner =>
              obtain ⟨rfl, rfl⟩ := List.cons.inj later
              obtain rfl : c = sign := eq_of_mem_utf8EncodeChar ascii (by simp [shape])
              rw [utf8EncodeChar_of_ascii ascii] at shape
              cases before with
              | nil =>
                  obtain rfl := (List.cons.inj shape).2
                  exact ⟨[], rest, rfl, rfl, rfl⟩
              | cons => simp at shape
  · intro described
    obtain ⟨front, back, rfl, rfl, rfl⟩ := described
    rw [utf8Bytes_append, utf8Bytes, utf8Bytes, List.flatMap_cons, utf8EncodeChar_of_ascii ascii]
    rfl

end Sign

/-! ### The look-ups -/

theorem byteBefore?_succ {bytes : List UInt8} {place : Nat} (inside : place < bytes.length)
    (distance : Nat) :
    byteBefore? bytes place (distance + 1) = some (bytes.take (place - distance)).getLast? := by
  unfold byteBefore?
  split
  · rename_i enough
    have there : place - (distance + 1) < bytes.length := by omega
    have next : place - distance = place - (distance + 1) + 1 := by omega
    rw [next, List.getLast?_take]
    simp [there]
  · rename_i short
    have start : place - distance = 0 := by omega
    rw [start]
    rfl

/-- The bytes before and after a bar are those of exactly one space on each side. -/
structure BytesSpaced (before after : List UInt8) : Prop where
  space_before : before.getLast? = some ' '.toUInt8
  single_before : before.dropLast.getLast? ≠ some ' '.toUInt8
  space_after : after.head? = some ' '.toUInt8
  single_after : after.tail.head? ≠ some ' '.toUInt8

/-- The check of a place in the text has a result, which is about the bytes around the place. -/
theorem barSpacedAt?_eq_some {bytes : List UInt8} {place : Nat} (inside : place < bytes.length) :
    ∃ verdict, barSpacedAt? bytes place = some verdict ∧ (verdict = true ↔
      (bytes[place]? = some '|'.toUInt8 →
        BytesSpaced (bytes.take place) (bytes.drop (place + 1)))) := by
  have here := List.getElem?_eq_getElem inside
  have nearer := byteBefore?_succ inside 0
  have farther := byteBefore?_succ inside 1
  have before : (bytes.take place).dropLast = bytes.take (place - 1) := List.dropLast_take inside
  have after : (bytes.drop (place + 1)).tail = bytes.drop (place + 2) := List.tail_drop
  simp only [barSpacedAt?, here, nearer, farther, Option.bind_eq_bind, Option.bind_some]
  by_cases bar : bytes[place] = '|'.toUInt8
  · by_cases spaces : (bytes.take place).getLast? = some ' '.toUInt8 ∧
        bytes[place + 1]? = some ' '.toUInt8
    · have skip : ¬ ((bytes.take (place - 0)).getLast? ≠ some ' '.toUInt8 ∨
          bytes[place + 1]? ≠ some ' '.toUInt8) := by simpa using spaces
      rw [if_neg (not_not.mpr bar), if_neg skip]
      refine ⟨_, rfl, ?_⟩
      simp only [bar, forall_const, Bool.and_eq_true, decide_eq_true_eq]
      apply Iff.intro
      · intro single
        exact ⟨spaces.1, by rw [before]; exact single.1, by rw [List.head?_drop]; exact spaces.2,
          by rw [after, List.head?_drop]; exact single.2⟩
      · intro spaced
        have single := spaced.single_after
        rw [after, List.head?_drop] at single
        exact ⟨by rw [← before]; exact spaced.single_before, single⟩
    · have stop : (bytes.take (place - 0)).getLast? ≠ some ' '.toUInt8 ∨
          bytes[place + 1]? ≠ some ' '.toUInt8 := not_and_or.mp spaces
      rw [if_neg (not_not.mpr bar), if_pos stop]
      refine ⟨false, rfl, ?_⟩
      simp only [Bool.false_eq_true, bar, forall_const, false_iff]
      intro spaced
      exact spaces ⟨spaced.space_before, by rw [← List.head?_drop]; exact spaced.space_after⟩
  · exact ⟨true, by rw [if_pos bar]; rfl, by simp [bar]⟩

theorem allM_eq_some {α : Type} {check : α → Option Bool} {holds : α → Prop} {entries : List α}
    (checked : ∀ entry ∈ entries, ∃ verdict, check entry = some verdict ∧
      (verdict = true ↔ holds entry)) :
    ∃ verdict, entries.allM check = some verdict ∧
      (verdict = true ↔ ∀ entry ∈ entries, holds entry) := by
  induction entries with
  | nil => exact ⟨true, rfl, by simp⟩
  | cons first rest ih =>
      obtain ⟨verdict, known, meaning⟩ := checked first (by simp)
      obtain ⟨later, knownLater, meaningLater⟩ :=
        ih fun entry member => checked entry (by simp [member])
      cases verdict with
      | false =>
          refine ⟨false, by simp [List.allM, known], ?_⟩
          have fails : ¬ holds first := by simpa using meaning
          simp [fails]
      | true =>
          refine ⟨later, by simp [List.allM, known, knownLater], ?_⟩
          have first : holds first := by simpa using meaning
          simp [meaningLater, first]

/-! ### The scan -/

theorem bytesSpaced_iff (front back : List Char) :
    BytesSpaced (utf8Bytes front) (utf8Bytes back) ↔ BarSpaced front back := by
  have space : ' '.toNat < 128 := by decide
  -- Next to a space the bytes go on as the characters do.
  have farther : front.getLast? = some ' ' →
      ((utf8Bytes front).dropLast.getLast? = some ' '.toUInt8 ↔ front.dropLast.getLast? = some ' ') := by
    intro last
    obtain ⟨rest, rfl⟩ := List.getLast?_eq_some_iff.mp last
    have shape : utf8Bytes (rest ++ [' ']) = utf8Bytes rest ++ [' '.toUInt8] := utf8Bytes_append _ _
    rw [shape, List.dropLast_concat, List.dropLast_concat, getLast_utf8Bytes space]
  have beyond : back.head? = some ' ' →
      ((utf8Bytes back).tail.head? = some ' '.toUInt8 ↔ back.tail.head? = some ' ') := by
    intro first
    obtain ⟨rest, rfl⟩ := List.head?_eq_some_iff.mp first
    exact head_utf8Bytes space rest
  apply Iff.intro
  · intro spaced
    have before := (getLast_utf8Bytes space front).mp spaced.space_before
    have after := (head_utf8Bytes space back).mp spaced.space_after
    exact ⟨before, (farther before).not.mp spaced.single_before, after,
      (beyond after).not.mp spaced.single_after⟩
  · intro spaced
    exact ⟨(getLast_utf8Bytes space front).mpr spaced.space_before,
      (farther spaced.space_before).not.mpr spaced.single_before,
      (head_utf8Bytes space back).mpr spaced.space_after,
      (beyond spaced.space_after).not.mpr spaced.single_after⟩

/-- The scan of the bytes asks for no place outside, and it finds what is true of the characters. -/
theorem bytesSpaced?_utf8Bytes (text : List Char) :
    bytesSpaced? (utf8Bytes text) = some (barsSpaced text) := by
  have bar : '|'.toNat < 128 := by decide
  have checked : ∀ place ∈ List.range (utf8Bytes text).length,
      ∃ verdict, barSpacedAt? (utf8Bytes text) place = some verdict ∧ (verdict = true ↔
        ((utf8Bytes text)[place]? = some '|'.toUInt8 →
          BytesSpaced ((utf8Bytes text).take place) ((utf8Bytes text).drop (place + 1)))) :=
    fun place member => barSpacedAt?_eq_some (List.mem_range.mp member)
  obtain ⟨verdict, scanned, meaning⟩ := allM_eq_some checked
  rw [bytesSpaced?, scanned, Option.some.injEq, Bool.eq_iff_iff, meaning, barsSpaced_iff]
  apply Iff.intro
  · intro places front back cut
    have shape : utf8Bytes text = utf8Bytes front ++ '|'.toUInt8 :: utf8Bytes back :=
      (utf8Bytes_eq_append_iff bar text _ _).mpr ⟨front, back, cut, rfl, rfl⟩
    have spaced := places (utf8Bytes front).length (by simp [shape]) (by simp [shape])
    rw [← bytesSpaced_iff]
    simpa [shape] using spaced
  · intro bars place _ found
    obtain ⟨inside, here⟩ := List.getElem?_eq_some_iff.mp found
    have shape : utf8Bytes text =
        (utf8Bytes text).take place ++ '|'.toUInt8 :: (utf8Bytes text).drop (place + 1) := by
      rw [← here, ← List.drop_eq_getElem_cons inside, List.take_append_drop]
    obtain ⟨front, back, cut, before, after⟩ := (utf8Bytes_eq_append_iff bar text _ _).mp shape
    rw [before, after]
    exact (bytesSpaced_iff front back).mpr (bars front back cut)

end RequestLine.Text
