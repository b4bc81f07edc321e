import RequestLine.Proofs.Json.Reading

/-!
The strings that texts stand for.  A string is written with quotes around it, and embedded texts are
written in strings, so the string that a text stands for is shorter than the text.
-/

namespace RequestLine.Json

theorem scalar?_string_length {text rest : List Char} {content : String}
    (read : scalar? text = some (.string content, rest)) :
    content.toList.length + rest.length < text.length := by
  unfold scalar? at read
  split at read
  · cases read
  · cases read
  · cases read
  · simp only [Option.bind_eq_bind, Option.bind_eq_some_iff, Option.pure_def] at read
    obtain ⟨⟨found, left⟩, taken, same⟩ := read
    cases same
    have shorter := (string?_taken taken).2
    exact shorter.trans (Nat.lt_succ_self _)
  · simp only [Option.bind_eq_bind, Option.bind_eq_some_iff, Option.pure_def] at read
    obtain ⟨⟨numeral, left⟩, _, found, number, same⟩ := read
    cases same
    unfold Numeral.value? at number
    split at number
    · cases number
    · rw [Option.map_eq_some_iff] at number
      obtain ⟨real, _, other⟩ := number
      cases other

section

variable {embedded : List Char → Except Fault Json} {text rest : List Char} {content : String}

/-- The texts that `embedded` reads stand for shorter strings. -/
def Shortens (embedded : List Char → Except Fault Json) : Prop :=
  ∀ {text content}, embedded text = .ok (.string content) → content.toList.length < text.length

theorem embeddingWith_string_length (shortens : Shortens embedded)
    (read : embeddingWith embedded text = .ok (.string content, rest)) :
    content.toList.length + rest.length < text.length := by
  obtain ⟨behind, inner, left, opened, quoted, accepted, closed⟩ := embeddingWith_eq_ok read
  have whole := (freeUpTo_skipSpace text).suffix.length_le
  have spaces := (freeUpTo_skipSpace left).suffix.length_le
  have string := (string?_taken quoted).2
  have shorter := shortens accepted
  rw [opened, List.length_cons] at whole
  rw [closed, List.length_cons] at spaces
  omega

theorem valueWithin_string_length (shortens : Shortens embedded) {depth : Nat}
    (read : valueWithin embedded depth text = .ok (.string content, rest)) :
    content.toList.length + rest.length < text.length := by
  have whole := (freeUpTo_skipSpace text).suffix.length_le
  have scalar : ofLexeme scalar? (skipSpace text) = .ok (.string content, rest) →
      content.toList.length + rest.length < text.length :=
    fun read => (scalar?_string_length (ofLexeme_eq_ok_iff.mp read)).trans_le whole
  cases depth with
  | zero => exact scalar read
  | succ depth =>
      unfold valueWithin at read
      split at read
      · rw [bind_eq_ok_iff] at read
        obtain ⟨_, _, same⟩ := read
        cases same
      · rename_i behind opened
        rw [opened, List.length_cons] at whole
        have members : membersWith (valueWithin embedded depth) behind ≠
            .ok (.string content, rest) := by
          intro read
          rw [membersWith, bind_eq_ok_iff] at read
          obtain ⟨_, _, same⟩ := read
          cases same
        unfold objectWith at read
        split at read
        · rename_i key left keyRead
          split at read
          · have shorter := embeddingWith_string_length shortens read
            have before := (key?_suffix keyRead).length_le
            omega
          · exact absurd read members
        · exact absurd read members
      · exact scalar read

end

theorem shortens_readWithin (limit : Nat) : Shortens (readWithin limit) := by
  induction limit with
  | zero =>
      intro text content read
      cases read
  | succ limit ih =>
      intro text content read
      rw [readWithin, bind_eq_ok_iff] at read
      obtain ⟨⟨value, left⟩, valueRead, read⟩ := read
      dsimp only at read
      split at read
      · cases read
        have shorter := valueWithin_string_length ih valueRead
        omega
      · cases read

/-- No text stands for itself. -/
theorem ofString?_ne_self (text : String) : ofString? text ≠ some (.string text) := by
  intro same
  have shorter := shortens_readWithin _ (ofText?_eq_some_iff.mp same)
  exact lt_irrefl _ shorter

end RequestLine.Json
