import RequestLine.Proofs.Text.Trimming
import RequestLine.Text.Percent

/-! What percent encoding writes, and that decoding brings it back. -/

namespace RequestLine.Text

theorem isUnreserved_upperHexDigit {n : Nat} (bound : n < 16) :
    isUnreserved (upperHexDigit n) = true := by
  have all : ∀ n : Fin 16, isUnreserved (upperHexDigit n) = true := by decide
  exact all ⟨n, bound⟩

theorem mem_percentCharacter {c source : Char} (member : c ∈ percentCharacter source) :
    isUnreserved c = true ∨ c = '%' := by
  unfold percentCharacter at member
  split at member
  · rename_i unreserved
    rw [List.mem_singleton.mp member]
    exact .inl unreserved
  · obtain ⟨byte, _, written⟩ := List.mem_flatMap.mp member
    have bound := byte.toNat_lt
    have upper := isUnreserved_upperHexDigit (show byte.toNat / 16 < 16 by omega)
    have lower := isUnreserved_upperHexDigit (show byte.toNat % 16 < 16 by omega)
    simp only [percentByte, List.mem_cons, List.not_mem_nil, or_false] at written
    rcases written with sign | first | second
    · exact .inr sign
    · exact .inl (first ▸ upper)
    · exact .inl (second ▸ lower)

theorem mem_percentEncode {c : Char} {text : List Char} (member : c ∈ percentEncode text) :
    isUnreserved c = true ∨ c = '%' := by
  obtain ⟨source, _, written⟩ := List.mem_flatMap.mp member
  exact mem_percentCharacter written

theorem not_mem_percentEncode {c : Char} (reserved : isUnreserved c = false) (other : c ≠ '%')
    (text : List Char) : c ∉ percentEncode text := by
  intro member
  rcases mem_percentEncode member with unreserved | sign
  · rw [reserved] at unreserved
    cases unreserved
  · exact other sign

theorem isBlank_of_mem_percentEncode {c : Char} {text : List Char}
    (member : c ∈ percentEncode text) : isBlank c = false := by
  rcases mem_percentEncode member with unreserved | rfl
  · rw [isUnreserved, Bool.or_eq_true] at unreserved
    rcases unreserved with alphanumeric | mark
    · exact isBlank_of_isAlphanum alphanumeric
    · have all : ∀ mark ∈ ['-', '_', '.', '!', '~', '*', '\'', '(', ')'],
          isBlank mark = false := by simp [isBlank, blankRanges]
      exact all c (List.contains_iff_mem.mp mark)
  · rfl

/-! ### The written form -/

/-- A letter, a digit or one of nine marks. -/
def IsPlain (c : Char) : Prop :=
  ('A' ≤ c ∧ c ≤ 'Z') ∨ ('a' ≤ c ∧ c ≤ 'z') ∨ ('0' ≤ c ∧ c ≤ '9') ∨
    c ∈ ['-', '_', '.', '!', '~', '*', '\'', '(', ')']

def IsUpperHexDigit (c : Char) : Prop :=
  ('0' ≤ c ∧ c ≤ '9') ∨ ('A' ≤ c ∧ c ≤ 'F')

instance : DecidablePred IsUpperHexDigit := fun c =>
  inferInstanceAs (Decidable (('0' ≤ c ∧ c ≤ '9') ∨ ('A' ≤ c ∧ c ≤ 'F')))

/-- A text of plain characters and of percent signs with two upper-case digits after each. -/
inductive PercentForm : List Char → Prop where
  | nil : PercentForm []
  | plain {c : Char} {rest : List Char} (kept : IsPlain c) (form : PercentForm rest) :
      PercentForm (c :: rest)
  | byte {high low : Char} {rest : List Char} (first : IsUpperHexDigit high)
      (second : IsUpperHexDigit low) (form : PercentForm rest) :
      PercentForm ('%' :: high :: low :: rest)

theorem isPlain_of_isUnreserved {c : Char} (unreserved : isUnreserved c = true) : IsPlain c := by
  rw [isUnreserved, Bool.or_eq_true] at unreserved
  rcases unreserved with alphanumeric | mark
  · rcases range_of_isAlphanum alphanumeric with upper | lower | digit
    · exact .inl upper
    · exact .inr (.inl lower)
    · exact .inr (.inr (.inl digit))
  · exact .inr (.inr (.inr (List.contains_iff_mem.mp mark)))

theorem isUpperHexDigit_upperHexDigit {n : Nat} (bound : n < 16) :
    IsUpperHexDigit (upperHexDigit n) := by
  have all : ∀ n : Fin 16, IsUpperHexDigit (upperHexDigit n.val) := by decide
  exact all ⟨n, bound⟩

theorem PercentForm.append {front back : List Char} (first : PercentForm front)
    (second : PercentForm back) : PercentForm (front ++ back) := by
  induction first with
  | nil => exact second
  | plain member _ ih => exact .plain member ih
  | byte high low _ ih => exact .byte high low ih

theorem percentForm_percentByte (byte : UInt8) : PercentForm (percentByte byte) := by
  have bound := byte.toNat_lt
  exact .byte (isUpperHexDigit_upperHexDigit (by omega)) (isUpperHexDigit_upperHexDigit (by omega)) .nil

theorem percentForm_flatMap {α : Type} {write : α → List Char} {entries : List α}
    (forms : ∀ entry ∈ entries, PercentForm (write entry)) : PercentForm (entries.flatMap write) := by
  induction entries with
  | nil => exact .nil
  | cons entry entries ih =>
      rw [List.flatMap_cons]
      exact (forms entry (by simp)).append (ih fun other member => forms other (by simp [member]))

theorem percentForm_percentCharacter (c : Char) : PercentForm (percentCharacter c) := by
  unfold percentCharacter
  split
  · rename_i unreserved
    exact .plain (isPlain_of_isUnreserved unreserved) .nil
  · exact percentForm_flatMap fun byte _ => percentForm_percentByte byte

theorem percentForm_percentEncode (text : List Char) : PercentForm (percentEncode text) :=
  percentForm_flatMap fun c _ => percentForm_percentCharacter c

/-! ### Decoding -/

theorem percentBytes?_cons {c : Char} (other : c ≠ '%') (rest : List Char) :
    percentBytes? (c :: rest) = (percentBytes? rest).map (String.utf8EncodeChar c ++ ·) := by
  rw [percentBytes?, if_neg other]
  · cases percentBytes? rest <;> rfl
  · intro high low more same
    exact absurd same other

theorem percentBytes?_percentByte (byte : UInt8) (rest : List Char) :
    percentBytes? (percentByte byte ++ rest) = (percentBytes? rest).map (byte :: ·) := by
  have bound := byte.toNat_lt
  have value : (byte.toNat / 16 * 16 + byte.toNat % 16).toUInt8 = byte := by
    rw [Nat.div_add_mod']
    simp
  simp only [percentByte, List.cons_append, List.nil_append, percentBytes?]
  rw [hexDigit?_upperHexDigit (by omega), hexDigit?_upperHexDigit (by omega)]
  dsimp only [bind, Option.bind]
  rw [value]
  cases percentBytes? rest <;> rfl

theorem percentBytes?_bytes (bytes : List UInt8) (rest : List Char) :
    percentBytes? (bytes.flatMap percentByte ++ rest) = (percentBytes? rest).map (bytes ++ ·) := by
  induction bytes with
  | nil => simp
  | cons byte bytes ih =>
      rw [List.flatMap_cons, List.append_assoc, percentBytes?_percentByte, ih, Option.map_map]
      rfl

theorem percentBytes?_percentCharacter (c : Char) (rest : List Char) :
    percentBytes? (percentCharacter c ++ rest) =
      (percentBytes? rest).map (String.utf8EncodeChar c ++ ·) := by
  unfold percentCharacter
  split
  · rename_i unreserved
    refine percentBytes?_cons ?_ rest
    intro sign
    rw [sign] at unreserved
    contradiction
  · exact percentBytes?_bytes _ rest

theorem percentBytes?_percentEncode (text : List Char) :
    percentBytes? (percentEncode text) = some (text.flatMap String.utf8EncodeChar) := by
  induction text with
  | nil => rfl
  | cons c text ih =>
      have joined : percentEncode (c :: text) = percentCharacter c ++ percentEncode text := rfl
      rw [joined, percentBytes?_percentCharacter, ih]
      rfl

theorem fromUTF8?_utf8Encode (text : List Char) :
    String.fromUTF8? text.utf8Encode = some (String.ofList text) :=
  dif_pos (String.ofList text).isValidUTF8

theorem percentDecode?_percentEncode (text : List Char) :
    percentDecode? (percentEncode text) = some (String.ofList text) := by
  rw [percentDecode?, percentBytes?_percentEncode]
  exact fromUTF8?_utf8Encode text

end RequestLine.Text
