import Mathlib.Data.List.Nodup
import RequestLine.Proofs.Json.Numeral
import RequestLine.Json.Reader

/-! The values that their text can bring back, and the lists of members that make them. -/

namespace RequestLine

namespace Members

theorem set_of_not_mem {members : Members} {key : String} (fresh : key ∉ members.map Prod.fst)
    (value : Json) : members.set key value = members ++ [(key, value)] := by
  induction members with
  | nil => rfl
  | cons first rest ih =>
      obtain ⟨known, old⟩ := first
      simp only [List.map_cons, List.mem_cons, not_or] at fresh
      have other : known ≠ key := fun same => fresh.1 same.symm
      simp only [set, other, if_false, ih fresh.2, List.cons_append]

theorem ofPairs_eq_foldl (pairs : List (String × Json)) :
    ofPairs pairs = pairs.foldl (fun members pair => Members.set members pair.1 pair.2) [] := rfl

theorem ofPairs_of_nodup {pairs : List (String × Json)} (distinct : (pairs.map Prod.fst).Nodup) :
    ofPairs pairs = pairs := by
  -- Every key is new when it is set, so the members stand in the order of the pairs.
  have build : ∀ done : Members, ((done ++ pairs).map Prod.fst).Nodup →
      pairs.foldl (fun members pair => Members.set members pair.1 pair.2) done = done ++ pairs := by
    clear distinct
    induction pairs with
    | nil =>
        intro done _
        simp
    | cons pair pairs ih =>
        intro done distinct
        have fresh : pair.1 ∉ done.map Prod.fst := by
          intro known
          rw [List.map_append, List.map_cons] at distinct
          exact (List.nodup_append.mp distinct).2.2 pair.1 known pair.1 (by simp) rfl
        rw [List.foldl_cons, set_of_not_mem fresh, ih]
        · simp
        · simpa using distinct
  rw [ofPairs_eq_foldl, build [] (by simpa using distinct), List.nil_append]

theorem mem_set {members : Members} {key : String} {value : Json} {pair : String × Json}
    (member : pair ∈ members.set key value) : pair ∈ members ∨ pair = (key, value) := by
  induction members with
  | nil => simpa [set] using member
  | cons first rest ih =>
      obtain ⟨known, old⟩ := first
      simp only [set] at member
      split at member
      · rcases List.mem_cons.mp member with new | kept
        · exact .inr new
        · exact .inl (List.mem_cons_of_mem _ kept)
      · rcases List.mem_cons.mp member with same | later
        · exact .inl (by simp [same])
        · rcases ih later with kept | new
          · exact .inl (List.mem_cons_of_mem _ kept)
          · exact .inr new

/-- The first key stays the first. -/
theorem head_set (first : String × Json) (rest : Members) (key : String) (value : Json) :
    ∃ pair others, set (first :: rest) key value = pair :: others ∧ pair.1 = first.1 := by
  obtain ⟨known, old⟩ := first
  by_cases same : known = key
  · exact ⟨(key, value), rest, by simp [set, same], same.symm⟩
  · exact ⟨(known, old), set rest key value, by simp [set, same], rfl⟩

theorem foldl_set (pairs : List (String × Json)) : ∀ done : Members,
    (∀ pair ∈ pairs.foldl (fun members pair => Members.set members pair.1 pair.2) done,
      pair ∈ done ∨ pair ∈ pairs) ∧
    (pairs.foldl (fun members pair => Members.set members pair.1 pair.2) done).head?.map Prod.fst =
      (done ++ pairs).head?.map Prod.fst := by
  induction pairs with
  | nil =>
      intro done
      simp
  | cons pair pairs ih =>
      intro done
      obtain ⟨members, leads⟩ := ih (done.set pair.1 pair.2)
      rw [List.foldl_cons]
      refine ⟨?_, ?_⟩
      · intro found member
        rcases members found member with old | later
        · rcases mem_set old with kept | new
          · exact .inl kept
          · exact .inr (by simp [new])
        · exact .inr (List.mem_cons_of_mem _ later)
      · rw [leads]
        cases done with
        | nil => simp [set]
        | cons first rest =>
            obtain ⟨head, others, shape, same⟩ := head_set first rest pair.1 pair.2
            simp [shape, same]

theorem mem_ofPairs {pairs : List (String × Json)} {pair : String × Json}
    (member : pair ∈ ofPairs pairs) : pair ∈ pairs := by
  rcases (foldl_set pairs []).1 pair member with none | found
  · cases none
  · exact found

theorem keys_set (members : Members) (key : String) (value : Json) :
    (members.set key value).map Prod.fst =
      if key ∈ members.map Prod.fst then members.map Prod.fst else members.map Prod.fst ++ [key] := by
  induction members with
  | nil => rfl
  | cons first rest ih =>
      obtain ⟨known, old⟩ := first
      by_cases same : known = key
      · simp [set, same]
      · have other : key ≠ known := fun equal => same equal.symm
        simp only [set, same, if_false, List.map_cons, ih, List.mem_cons, other, false_or]
        split <;> rfl

theorem nodup_set {members : Members} (distinct : (members.map Prod.fst).Nodup) (key : String)
    (value : Json) : ((members.set key value).map Prod.fst).Nodup := by
  rw [keys_set]
  split
  · exact distinct
  · rename_i fresh
    exact List.nodup_append.mpr ⟨distinct, List.nodup_singleton key, by
      intro known member new newMember same
      rw [List.mem_singleton.mp newMember] at same
      rw [same] at member
      exact fresh member⟩

theorem nodup_ofPairs (pairs : List (String × Json)) : ((ofPairs pairs).map Prod.fst).Nodup := by
  have build : ∀ done : Members, (done.map Prod.fst).Nodup →
      ((pairs.foldl (fun members pair => Members.set members pair.1 pair.2) done).map
        Prod.fst).Nodup := by
    induction pairs with
    | nil => exact fun _ distinct => distinct
    | cons pair pairs ih => exact fun done distinct => ih _ (nodup_set distinct pair.1 pair.2)
  exact build [] List.nodup_nil

theorem head_ofPairs (pairs : List (String × Json)) :
    (ofPairs pairs).head?.map Prod.fst = pairs.head?.map Prod.fst :=
  (foldl_set pairs []).2

end Members

namespace Json

/-- A value without binary64 numbers.  Its integers are in the range of the reader, and no object
has a key twice. -/
inductive Plain : Json → Prop where
  | null : Plain .null
  | bool (value : Bool) : Plain (.bool value)
  | integer {value : Int} (bounds : Numeral.InRange value) : Plain (.integer value)
  | string (text : String) : Plain (.string text)
  | array {items : List Json} (inner : ∀ item ∈ items, Plain item) : Plain (.array items)
  | object {members : List (String × Json)} (distinct : (members.map Prod.fst).Nodup)
      (inner : ∀ member ∈ members, Plain member.2) : Plain (.object members)

/-- No binary64 number stands in the value. -/
inductive RealFree : Json → Prop where
  | null : RealFree .null
  | bool (value : Bool) : RealFree (.bool value)
  | integer (value : Int) : RealFree (.integer value)
  | string (text : String) : RealFree (.string text)
  | array {items : List Json} (inner : ∀ item ∈ items, RealFree item) : RealFree (.array items)
  | object {members : List (String × Json)} (inner : ∀ member ∈ members, RealFree member.2) :
      RealFree (.object members)

/-- No object in the value has as its first key the one that embeds a text. -/
inductive Unembedded : Json → Prop where
  | null : Unembedded .null
  | bool (value : Bool) : Unembedded (.bool value)
  | integer (value : Int) : Unembedded (.integer value)
  | real (value : Binary64) : Unembedded (.real value)
  | string (text : String) : Unembedded (.string text)
  | array {items : List Json} (inner : ∀ item ∈ items, Unembedded item) :
      Unembedded (.array items)
  | object {members : List (String × Json)}
      (leads : members.head?.map Prod.fst ≠ some embeddingKey)
      (inner : ∀ member ∈ members, Unembedded member.2) : Unembedded (.object members)

theorem depth_le_depthOfItems {items : List Json} {item : Json} (member : item ∈ items) :
    item.depth ≤ depthOfItems items := by
  induction items with
  | nil => cases member
  | cons first rest ih =>
      rw [depthOfItems]
      rcases List.mem_cons.mp member with rfl | later
      · omega
      · have inner := ih later
        omega

theorem depth_le_depthOfMembers {members : List (String × Json)} {pair : String × Json}
    (member : pair ∈ members) : pair.2.depth ≤ depthOfMembers members := by
  induction members with
  | nil => cases member
  | cons first rest ih =>
      rw [depthOfMembers]
      rcases List.mem_cons.mp member with rfl | later
      · omega
      · have inner := ih later
        omega

end Json
end RequestLine
