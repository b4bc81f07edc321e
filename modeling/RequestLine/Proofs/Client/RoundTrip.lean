import RequestLine.Client
import RequestLine.Proofs.Json.RoundTrip
import RequestLine.Proofs.Json.Strings

/-!
Header texts that come back as answers, and the answers that are kept as strings.  What no reader
takes is kept; what one takes never stands for itself.
-/

namespace RequestLine.Client

theorem headerText_of_not_string {value : Json} (other : ∀ text, value ≠ .string text) :
    headerText value = value.toText := by
  unfold headerText
  split
  · rename_i text
    exact absurd rfl (other text)
  · rfl

theorem responseData_of_ofString? {text : String} {value : Json}
    (read : Json.ofString? text = some value) : responseData text = value := by
  rw [responseData, read, Option.getD_some]

theorem responseData_eq_string_iff {text : String} :
    responseData text = .string text ↔ Json.ofString? text = none := by
  constructor
  · intro kept
    cases read : Json.ofString? text with
    | none => rfl
    | some value =>
        -- A text that was read would stand for itself.
        rw [responseData_of_ofString? read] at kept
        rw [kept] at read
        exact absurd read (Json.ofString?_ne_self text)
  · intro refused
    rw [responseData, refused, Option.getD_none]

theorem responseData_cases (text : String) :
    responseData text = .string text ∨ Json.ofString? text = some (responseData text) := by
  cases read : Json.ofString? text with
  | none => exact .inl (responseData_eq_string_iff.mpr read)
  | some value => exact .inr (by rw [responseData_of_ofString? read])

/-- No answer embeds a text, so a value that does is never brought back. -/
theorem unembedded_responseData (text : String) : (responseData text).Unembedded := by
  rcases responseData_cases text with kept | read
  · rw [kept]
    exact .string text
  · exact Json.unembedded_of_ofText? read

theorem responseData_toText_iff {value : Json} (plain : value.Plain)
    (shallow : value.depth ≤ Json.depthLimit) :
    responseData value.toText = value ↔ value.Unembedded := by
  constructor
  · intro back
    rw [← back]
    exact unembedded_responseData value.toText
  · intro unembedded
    exact responseData_of_ofString? (Json.ofString?_toText plain unembedded shallow)

/-- A plain value other than a string is the answer to its header text, unless it embeds a text.  A
string is its own header text, and an answer is kept as a string exactly when it is no JSON text. -/
theorem responseData_headerText :
    (∀ value : Json, value.Plain → value.depth ≤ Json.depthLimit →
      (∀ text, value ≠ .string text) →
        (responseData (headerText value) = value ↔ value.Unembedded)) ∧
    (∀ text, headerText (.string text) = text) ∧
    ∀ text, responseData text = .string text ↔ Json.ofString? text = none := by
  refine ⟨?_, fun _ => rfl, fun _ => responseData_eq_string_iff⟩
  intro value plain shallow other
  rw [headerText_of_not_string other]
  exact responseData_toText_iff plain shallow

/-- The first key is not the lesser one, and both ends of the range of integers are there. -/
theorem responseData_headerText_ends :
    responseData (headerText (.object [
      ("max", .integer 18446744073709551615),
      ("least", .array [.integer (-9223372036854775808), .string "\"é\\\n|", .null])])) =
    .object [
      ("max", .integer 18446744073709551615),
      ("least", .array [.integer (-9223372036854775808), .string "\"é\\\n|", .null])] := by
  refine (responseData_headerText.1 _ ?_ (by decide) (by intro text same; cases same)).mpr ?_
  · refine .object (by decide) ?_
    simp only [List.forall_mem_cons]
    refine ⟨.integer ⟨by decide, by decide⟩, ?_, by simp⟩
    refine .array ?_
    simp only [List.forall_mem_cons]
    exact ⟨.integer ⟨by decide, by decide⟩, .string _, .null, by simp⟩
  · refine .object (by decide) ?_
    simp only [List.forall_mem_cons]
    refine ⟨.integer _, ?_, by simp⟩
    refine .array ?_
    simp only [List.forall_mem_cons]
    exact ⟨.integer _, .string _, .null, by simp⟩

/-- The answer to an object that embeds a text is the value of that text. -/
theorem responseData_headerText_embedding :
    (Json.object [(Json.embeddingKey, .string "1")]).Plain ∧
    (Json.object [(Json.embeddingKey, .string "1")]).depth ≤ Json.depthLimit ∧
    responseData (headerText (.object [(Json.embeddingKey, .string "1")])) = .integer 1 ∧
    responseData (headerText (.object [(Json.embeddingKey, .string "1")])) ≠
      .object [(Json.embeddingKey, .string "1")] := by
  have read : responseData (headerText (.object [(Json.embeddingKey, .string "1")])) =
      .integer 1 := rfl
  refine ⟨.object (by decide) (by simpa using Json.Plain.string "1"), by decide, read, ?_⟩
  rw [read]
  intro same
  cases same

end RequestLine.Client
