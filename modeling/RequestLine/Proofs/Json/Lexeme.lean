import RequestLine.Json.Reader
import RequestLine.Json.Writer

/-! Strings and integers are read back from what is written of them, whatever stands behind. -/

namespace RequestLine.Json

open Text

theorem character?_plain {c : Char} (quoted : c ≠ '\\') (printed : ¬ c < ' ')
    (rest : List Char) : character? (c :: rest) = some (c, rest) := by
  unfold character?
  split <;> simp_all

theorem hexEscape?_of_small {c : Char} (small : c.toNat < 256) (rest : List Char) :
    hexEscape? ('0' :: '0' :: lowerHexDigit (c.toNat / 16) :: lowerHexDigit (c.toNat % 16) :: rest) =
      some (c, rest) := by
  have unit : hexUnit? ('0' :: '0' :: lowerHexDigit (c.toNat / 16) ::
      lowerHexDigit (c.toNat % 16) :: rest) = some (c.toNat, rest) := by
    have upper : hexDigit? '0' = some 0 := rfl
    have whole : c.toNat / 16 * 16 + c.toNat % 16 = c.toNat := by omega
    simp only [hexUnit?, upper, hexDigit?_lowerHexDigit (show c.toNat / 16 < 16 by omega),
      hexDigit?_lowerHexDigit (show c.toNat % 16 < 16 by omega), Option.bind_eq_bind,
      Option.bind_some, Option.pure_def, whole, Nat.zero_mul, Nat.zero_add]
  have low : isLowSurrogate c.toNat = false := by
    simp only [isLowSurrogate, Bool.and_eq_false_iff, decide_eq_false_iff_not]
    omega
  have high : isHighSurrogate c.toNat = false := by
    simp only [isHighSurrogate, Bool.and_eq_false_iff, decide_eq_false_iff_not]
    omega
  simp [hexEscape?, unit, low, high]

theorem character?_codeEscape {c : Char} (small : c.toNat < 256) (rest : List Char) :
    character? (codeEscape c ++ rest) = some (c, rest) := by
  simpa only [codeEscape, List.cons_append, List.nil_append, character?] using
    hexEscape?_of_small small rest

/-- What the escape writes for a character is read as that character, and never begins with the
quote that ends a string. -/
structure Reversible (escape : Char → List Char) : Prop where
  taken : ∀ c rest, character? (escape c ++ rest) = some (c, rest)
  opening : ∀ c, (escape c).head? ≠ some '"'

theorem reversible_escape : Reversible escape := by
  refine ⟨?_, ?_⟩
  · intro c rest
    unfold escape
    split
    any_goals rfl
    split
    · rename_i control
      apply character?_codeEscape
      have below : c.toNat < ' '.toNat := control
      have space : ' '.toNat = 32 := rfl
      omega
    · rename_i quoted _ _ _ _ _ printed
      exact character?_plain quoted printed rest
  · intro c
    unfold escape
    split
    any_goals simp
    split
    · simp [codeEscape]
    · rename_i quote _ _ _ _ _ _ _
      simpa using quote

theorem reversible_lineEscape : Reversible lineEscape := by
  refine ⟨?_, ?_⟩
  · intro c rest
    unfold lineEscape
    split
    · rename_i kept
      apply character?_codeEscape
      rcases kept with rfl | rfl
      · decide
      · decide
    · exact reversible_escape.taken c rest
  · intro c
    unfold lineEscape
    split
    · simp [codeEscape]
    · exact reversible_escape.opening c

section Strings

variable {escape : Char → List Char}

theorem Reversible.cons (reversible : Reversible escape) (c : Char) :
    ∃ first others, escape c = first :: others ∧ first ≠ '"' := by
  cases written : escape c with
  | nil =>
      have taken := reversible.taken c []
      rw [written] at taken
      cases taken
  | cons first others =>
      refine ⟨first, others, rfl, ?_⟩
      intro quote
      apply reversible.opening c
      rw [written, quote, List.head?_cons]

theorem charactersWithin?_of_ne_quote {first : Char} (content : first ≠ '"') (limit : Nat)
    (text : List Char) :
    charactersWithin? (limit + 1) (first :: text) = (do
      let (c, rest) ← character? (first :: text)
      let (others, rest) ← charactersWithin? limit rest
      return (c :: others, rest)) := by
  rw [charactersWithin?]
  intro rest shape
  exact content (List.cons.inj shape).1

theorem charactersWithin?_flatMap (reversible : Reversible escape) (text rest : List Char) :
    ∀ limit, text.length ≤ limit →
      charactersWithin? limit (text.flatMap escape ++ '"' :: rest) = some (text, rest) := by
  induction text with
  | nil =>
      intro limit _
      simp [charactersWithin?]
  | cons c text ih =>
      intro limit bound
      obtain ⟨first, others, written, content⟩ := reversible.cons c
      obtain ⟨limit, rfl⟩ : ∃ less, limit = less + 1 := ⟨limit - 1, by simp at bound; omega⟩
      have taken := reversible.taken c (text.flatMap escape ++ '"' :: rest)
      rw [written, List.cons_append] at taken
      rw [List.flatMap_cons, written, List.append_assoc, List.cons_append,
        charactersWithin?_of_ne_quote content, taken]
      simp [ih limit (by simpa using bound)]

theorem length_le_flatMap (reversible : Reversible escape) (text : List Char) :
    text.length ≤ (text.flatMap escape).length := by
  induction text with
  | nil => simp
  | cons c text ih =>
      obtain ⟨first, others, written, _⟩ := reversible.cons c
      simp only [List.flatMap_cons, written, List.length_append, List.length_cons]
      omega

theorem string?_flatMap (reversible : Reversible escape) (text : String) (rest : List Char) :
    string? (text.toList.flatMap escape ++ '"' :: rest) = some (text, rest) := by
  have bound : text.toList.length ≤ (text.toList.flatMap escape ++ '"' :: rest).length := by
    have written := length_le_flatMap reversible text.toList
    rw [List.length_append]
    omega
  rw [string?, charactersWithin?_flatMap reversible text.toList rest _ bound]
  simp

end Strings

end RequestLine.Json
