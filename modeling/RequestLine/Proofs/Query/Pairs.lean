import Mathlib.Data.List.Forall2
import RequestLine.Proofs.Text.Cutting
import RequestLine.Proofs.Text.Joining
import RequestLine.Proofs.Text.Percent
import RequestLine.Query

/-!
The pairs of a query.  A query is read by cutting it at its ampersands, each piece at its first equals
sign, and decoding what follows; as long as no key has one of these signs in it, this brings back the
keys and the texts of the values from which the query was made.
-/

namespace RequestLine

open Text

/-- The key of a piece, and the text whose encoding follows its first equals sign. -/
def queryPair? (piece : List Char) : Option (String × String) :=
  match piece.dropWhile (· != '=') with
  | [] => none
  | _ :: value => do
      let text ← percentDecode? value
      return (.ofList (piece.takeWhile (· != '=')), text)

def queryPairs? (query : String) : Option (List (String × String)) :=
  (query.toList.splitOn '&').mapM queryPair?

theorem queryPair?_pairText {pair : String × Json} (key : '=' ∉ pair.1.toList) :
    queryPair? (pairText pair) = some (pair.1, .ofList pair.2.queryText) := by
  have front : (pairText pair).takeWhile (· != '=') = pair.1.toList :=
    takeWhile_before_sign key _
  have back : (pairText pair).dropWhile (· != '=') = '=' :: percentEncode pair.2.queryText :=
    dropWhile_before_sign key _
  rw [queryPair?, back, front, String.ofList_toList]
  dsimp only
  rw [percentDecode?_percentEncode]
  rfl

theorem mapM_queryPair? {query : Members} (keys : ∀ pair ∈ query, '=' ∉ pair.1.toList) :
    (query.map pairText).mapM queryPair? =
      some (query.map fun pair => (pair.1, .ofList pair.2.queryText)) := by
  induction query with
  | nil => rfl
  | cons pair query ih =>
      rw [List.map_cons, List.mapM_cons, queryPair?_pairText (keys pair (by simp)),
        ih fun other member => keys other (by simp [member])]
      rfl

/-- No ampersand comes into a piece by its value. -/
theorem ampersand_not_mem_pairText {pair : String × Json} (key : '&' ∉ pair.1.toList) :
    '&' ∉ pairText pair := by
  have value := not_mem_percentEncode (c := '&') rfl (by decide) pair.2.queryText
  simp [pairText, key, value]

theorem splitOn_encodeQuery {query : Members} (nonempty : query ≠ [])
    (keys : ∀ pair ∈ query, '&' ∉ pair.1.toList) :
    (encodeQuery query).toList.splitOn '&' = query.map pairText := by
  rw [encodeQuery, String.toList_ofList]
  refine List.splitOn_intercalate '&' ?_ (by simpa using nonempty)
  intro piece member
  obtain ⟨pair, among, rfl⟩ := List.mem_map.mp member
  exact ampersand_not_mem_pairText (keys pair among)

/-- Whatever the values are, the query of keys without equals signs and ampersands is read as those
keys with the texts of their values; with any keys, each value is written in plain characters and in
bytes behind percent signs. -/
theorem queryPairs?_encodeQuery (query : Members) :
    (query ≠ [] → (∀ pair ∈ query, '=' ∉ pair.1.toList ∧ '&' ∉ pair.1.toList) →
      queryPairs? (encodeQuery query) =
        some (query.map fun pair => (pair.1, String.ofList pair.2.queryText))) ∧
    ∃ values, List.Forall₂ (fun pair value => PercentForm value ∧
        percentDecode? value = some (String.ofList pair.2.queryText)) query values ∧
      (encodeQuery query).toList = ['&'].intercalate
        (List.zipWith (fun pair value => pair.1.toList ++ '=' :: value) query values) := by
  refine ⟨?_, query.map fun pair => percentEncode pair.2.queryText, ?_, ?_⟩
  · intro nonempty keys
    rw [queryPairs?, splitOn_encodeQuery nonempty fun pair member => (keys pair member).2]
    exact mapM_queryPair? fun pair member => (keys pair member).1
  · rw [List.forall₂_map_right_iff, List.forall₂_same]
    intro pair _
    exact ⟨percentForm_percentEncode _, percentDecode?_percentEncode _⟩
  · rw [encodeQuery, String.toList_ofList, List.zipWith_map_right, List.zipWith_self]
    rfl

theorem queryPairs?_encodeQuery_marks :
    encodeQuery [("a b", .string "x&y=é"), ("", .array [.null, .integer (-1)]), ("z", .string "")] =
      "a b=x%26y%3D%C3%A9&=%2C-1&z=" ∧
    queryPairs? "a b=x%26y%3D%C3%A9&=%2C-1&z=" =
      some [("a b", "x&y=é"), ("", ",-1"), ("z", "")] := by
  have written : encodeQuery
      [("a b", .string "x&y=é"), ("", .array [.null, .integer (-1)]), ("z", .string "")] =
        "a b=x%26y%3D%C3%A9&=%2C-1&z=" := by decide
  refine ⟨written, ?_⟩
  rw [← written]
  exact (queryPairs?_encodeQuery _).1 (by simp) (by decide)

end RequestLine
