import RequestLine.Proofs.Json.RoundTrip
import RequestLine.Proofs.Line.Rendering
import RequestLine.Proofs.Text.Joining

/-! Which characters the text of a plain value is made of, and that it can stand in a line. -/

namespace RequestLine.Json

open Text

/-- The characters outside of strings, but for the digits. -/
def signs : List Char :=
  ['"', ',', ':', '[', ']', '{', '}', '-', 'n', 'u', 'l', 't', 'r', 'e', 'f', 'a', 's']

section Characters

variable {escape : Char → List Char} {allowed : Char → Prop}

theorem allowed_integerText (sign : ∀ c ∈ signs, allowed c)
    (digit : ∀ c : Char, c.isDigit = true → allowed c) (n : Int) :
    ∀ c ∈ integerText n, allowed c := by
  intro c member
  rw [integerText, List.mem_append] at member
  rcases member with minus | digits
  · split at minus
    · rw [List.mem_singleton.mp minus]
      exact sign '-' (by decide)
    · cases minus
  · exact digit c (Numeral.isDigit_toDigits digits)

theorem allowed_enclosed {opening closing : Char} {content : List Char} (first : allowed opening)
    (inner : ∀ c ∈ content, allowed c) (last : allowed closing) :
    ∀ c ∈ opening :: content ++ [closing], allowed c := by
  intro c member
  rw [List.cons_append, List.mem_cons, List.mem_append, List.mem_singleton] at member
  rcases member with rfl | inside | rfl
  · exact first
  · exact inner c inside
  · exact last

theorem allowed_writeString (sign : ∀ c ∈ signs, allowed c)
    (escaped : ∀ c, ∀ d ∈ escape c, allowed d) (text : String) :
    ∀ c ∈ writeString escape text, allowed c := by
  have quote : allowed '"' := sign '"' (by decide)
  refine allowed_enclosed quote ?_ quote
  intro c member
  obtain ⟨d, _, written⟩ := List.mem_flatMap.mp member
  exact escaped d c written

theorem allowed_memberText (sign : ∀ c ∈ signs, allowed c)
    (escaped : ∀ c, ∀ d ∈ escape c, allowed d) {member : String × Json}
    (inner : ∀ c ∈ writeWith escape member.2, allowed c) :
    ∀ c ∈ memberText escape member, allowed c := by
  intro c belongs
  rw [memberText, List.mem_append, List.mem_cons] at belongs
  rcases belongs with key | rfl | value
  · exact allowed_writeString sign escaped member.1 c key
  · exact sign _ (by decide)
  · exact inner c value

theorem allowed_intercalate (comma : allowed ',') {pieces : List (List Char)}
    (inner : ∀ piece ∈ pieces, ∀ c ∈ piece, allowed c) :
    ∀ c ∈ [','].intercalate pieces, allowed c := by
  intro c member
  rcases mem_intercalate member with rfl | inside
  · exact comma
  · obtain ⟨piece, among, belongs⟩ := inside
    exact inner piece among c belongs

/-- The text of a plain value has only signs, digits and what the escape writes. -/
theorem Plain.characters (sign : ∀ c ∈ signs, allowed c)
    (digit : ∀ c : Char, c.isDigit = true → allowed c)
    (escaped : ∀ c, ∀ d ∈ escape c, allowed d) {value : Json} (plain : Plain value) :
    ∀ c ∈ writeWith escape value, allowed c := by
  have literal : ∀ text : List Char, (∀ c ∈ text, c ∈ signs) → ∀ c ∈ text, allowed c :=
    fun text inside c member => sign c (inside c member)
  induction plain with
  | null => exact literal ['n', 'u', 'l', 'l'] (by simp [signs])
  | bool value =>
      cases value with
      | true => exact literal ['t', 'r', 'u', 'e'] (by simp [signs])
      | false => exact literal ['f', 'a', 'l', 's', 'e'] (by simp [signs])
  | @integer value _ =>
      rw [writeWith]
      exact allowed_integerText sign digit value
  | string text =>
      rw [writeWith]
      exact allowed_writeString sign escaped text
  | @array items _ ih =>
      rw [writeWith, writeItems_eq_map]
      refine allowed_enclosed (sign _ (by decide)) ?_ (sign _ (by decide))
      apply allowed_intercalate (sign _ (by decide))
      intro piece among
      obtain ⟨item, found, rfl⟩ := List.mem_map.mp among
      exact ih item found
  | @object members _ _ ih =>
      rw [writeWith, writeMembers_eq_map]
      refine allowed_enclosed (sign _ (by decide)) ?_ (sign _ (by decide))
      apply allowed_intercalate (sign _ (by decide))
      intro piece among
      obtain ⟨member, found, rfl⟩ := List.mem_map.mp among
      exact allowed_memberText sign escaped (ih member found)

theorem Plain.trimmed {value : Json} (plain : Plain value) : Trimmed (writeWith escape value) := by
  cases plain with
  | null => exact trimmed_enclosed rfl rfl ['u', 'l']
  | bool value =>
      cases value with
      | true => exact trimmed_enclosed rfl rfl ['r', 'u']
      | false => exact trimmed_enclosed rfl rfl ['a', 'l', 's']
  | @integer value _ =>
      have solid : ∀ c ∈ integerText value, isBlank c = false :=
        allowed_integerText (by simp [signs, isBlank, blankRanges])
          (fun c digit => isBlank_of_isAlphanum (Bool.or_eq_true_iff.mpr (.inr digit))) value
      rw [writeWith]
      exact ⟨fun c first => solid c (List.mem_of_head? first),
        fun c last => solid c (List.mem_of_getLast? last)⟩
  | string text => exact trimmed_enclosed rfl rfl _
  | array _ =>
      rw [writeWith]
      exact trimmed_enclosed rfl rfl _
  | object _ _ =>
      rw [writeWith]
      exact trimmed_enclosed rfl rfl _

end Characters

theorem lowerHexDigit_ne {n : Nat} (bound : n < 16) :
    lowerHexDigit n ≠ ' ' ∧ lowerHexDigit n ≠ '|' := by
  have all : ∀ n : Fin 16, lowerHexDigit n ≠ ' ' ∧ lowerHexDigit n ≠ '|' := by decide
  exact all ⟨n, bound⟩

theorem codeEscape_ne {c : Char} (small : c.toNat < 256) :
    ∀ d ∈ codeEscape c, d ≠ ' ' ∧ d ≠ '|' := by
  intro d member
  have upper := lowerHexDigit_ne (show c.toNat / 16 < 16 by omega)
  have lower := lowerHexDigit_ne (show c.toNat % 16 < 16 by omega)
  simp only [codeEscape, List.mem_cons, List.not_mem_nil, or_false] at member
  rcases member with rfl | rfl | rfl | rfl | rfl | rfl
  any_goals decide
  · exact upper
  · exact lower

theorem lineEscape_ne (c : Char) : ∀ d ∈ lineEscape c, d ≠ ' ' ∧ d ≠ '|' := by
  unfold lineEscape
  split
  · rename_i kept
    apply codeEscape_ne
    rcases kept with rfl | rfl
    · decide
    · decide
  · rename_i other
    have pair : ∀ letter : Char, letter ≠ ' ' ∧ letter ≠ '|' →
        ∀ d ∈ ['\\', letter], d ≠ ' ' ∧ d ≠ '|' := by
      intro letter free
      simp [free]
    unfold escape
    split
    any_goals exact pair _ (by decide)
    split
    · rename_i control
      apply codeEscape_ne
      have below : c.toNat < ' '.toNat := control
      have space : ' '.toNat = 32 := rfl
      omega
    · intro d member
      rw [List.mem_singleton.mp member]
      exact not_or.mp other

/-- The text of a plain value can be a value of a section as it is. -/
theorem Plain.solid {value : Json} (plain : Plain value) : Solid (writeWith lineEscape value) := by
  have free : ∀ c ∈ writeWith lineEscape value, c ≠ ' ' ∧ c ≠ '|' :=
    plain.characters (by simp [signs]) (by
      intro c digit
      refine ⟨?_, ?_⟩
      · intro same
        rw [same] at digit
        cases digit
      · intro same
        rw [same] at digit
        cases digit) lineEscape_ne
  have opens : Opens (writeWith lineEscape value) := plain.opens
  obtain ⟨first, others, shape, _⟩ := opens
  exact {
    ne_nil := by simp [shape]
    trimmed := plain.trimmed
    no_space := fun member => (free ' ' member).1 rfl
    no_bar := fun member => (free '|' member).2 rfl }

end RequestLine.Json
