import RequestLine.Proofs.Line.Rendering
import RequestLine.Proofs.Request.Building
import RequestLine.Proofs.Text.Joining
import RequestLine.Proofs.Text.Percent

/-!
The URLs that a line can hold, and those that a query makes of them.  The keys of a query go into the
URL as they are, so it is they that decide whether the URL can stand in a line again.
-/

namespace RequestLine

open Text

/-- A URL that can stand in a line as it is. -/
structure LineUrl (url : String) : Prop where
  valid : ValidUrl url.toList
  trimmed : Trimmed url.toList
  no_bar : '|' ∉ url.toList

theorem LineUrl.solid {url : String} (address : LineUrl url) : Solid url.toList where
  ne_nil := address.valid.ne_nil
  trimmed := address.trimmed
  no_space := address.valid.no_space
  no_bar := address.no_bar

theorem Method.name_solid (method : Method) : Solid method.name.toList := by
  cases method <;> decide

/-- The URL of an accepted line could stand in a line again. -/
theorem Request.lineUrl_of_ofLine {line : String} {request : Request}
    (read : Request.ofLine line = .ok request) : LineUrl request.url := by
  obtain ⟨sections, cut, built⟩ := bind_eq_ok_iff.mp read
  obtain ⟨acceptable, describes⟩ := Request.ofSections_sound built
  obtain ⟨pieces, ⟨content, _, interior⟩, related⟩ := Sections.ofLine_eq_ok_iff.mp cut
  refine ⟨?_, ?_, ?_⟩
  · rw [← describes.url]
    exact acceptable.url
  · rw [← describes.url]
    exact trimmed_trim _
  · intro bar
    obtain ⟨second, found, _⟩ := interior.url_second
    match pieces, related with
    | [], _ => simp at found
    | [_], _ => simp at found
    | first :: piece :: rest, related =>
        rw [Sections.toList, List.forall₂_cons, List.forall₂_cons] at related
        have inPart : '|' ∈ piece := by
          rw [← describes.url] at bar
          have inValue := (trim_inside _).subset bar
          apply (trim_inside piece).subset
          rw [related.2.1.1]
          simp [inValue]
        obtain ⟨before, after, shape⟩ := List.append_of_mem inPart
        have late := ((interior.valid 1 piece rfl).leading_bar before after shape).1
        omega

@[simp] theorem appendQuery_nil (url : String) : appendQuery url [] = url := rfl

theorem appendQuery_of_ne_nil {query : Members} (nonempty : query ≠ []) (url : String) :
    appendQuery url query =
      url ++ (if '?' ∈ url.toList then "&" else "?") ++ encodeQuery query := by
  have some : query.isEmpty = false := by simpa using nonempty
  simp [appendQuery, some]

theorem appendQuery_leads (url : String) (query : Members) :
    url.toList <+: (appendQuery url query).toList := by
  unfold appendQuery
  split
  · exact List.prefix_rfl
  · simp only [String.toList_append, List.append_assoc]
    exact List.prefix_append _ _

/-- A query adds to a URL with its last value at the end. -/
theorem appendQuery_ends (url : String) {query : Members} (nonempty : query ≠ []) :
    ∃ middle value,
      (appendQuery url query).toList = url.toList ++ middle ++ '=' :: percentEncode value := by
  rcases List.eq_nil_or_concat query with empty | ⟨others, last, shape⟩
  · contradiction
  · rw [List.concat_eq_append] at shape
    obtain ⟨front, joined⟩ : ∃ front,
        ['&'].intercalate (others.map pairText ++ [pairText last]) = front ++ pairText last :=
      intercalate_concat _ _
    have some : query.isEmpty = false := by simp [nonempty]
    have pairs : (encodeQuery query).toList = front ++ pairText last := by
      rw [encodeQuery, String.toList_ofList, shape, List.map_append, List.map_singleton, joined]
    refine ⟨(if url.toList.contains '?' then "&" else "?").toList ++ front ++ last.1.toList,
      last.2.queryText, ?_⟩
    simp only [appendQuery, some, Bool.false_eq_true, if_false, String.toList_append, pairs,
      pairText, List.append_assoc]

/-- A character that neither the encoding nor the signs of a query write is in the new URL only where
it was in the old one or in a key. -/
theorem mem_appendQuery_iff {c : Char} (reserved : isUnreserved c = false)
    (sign : c ∉ ['?', '&', '=', '%']) (url : String) (query : Members) :
    c ∈ (appendQuery url query).toList ↔
      c ∈ url.toList ∨ ∃ pair ∈ query, c ∈ pair.1.toList := by
  have absent := not_mem_percentEncode reserved (c := c) (by intro same; simp [same] at sign)
  have inPair : ∀ pair : String × Json, c ∈ pairText pair ↔ c ∈ pair.1.toList := by
    intro pair
    have other : c ≠ '=' := by
      intro same
      simp [same] at sign
    simp [pairText, other, absent]
  have pairs : c ∈ (encodeQuery query).toList ↔ ∃ pair ∈ query, c ∈ pair.1.toList := by
    rw [encodeQuery, String.toList_ofList]
    apply Iff.intro
    · intro member
      rcases mem_intercalate member with between | inside
      · simp [between] at sign
      · obtain ⟨piece, among, inner⟩ := inside
        obtain ⟨pair, found, rfl⟩ := List.mem_map.mp among
        exact ⟨pair, found, (inPair pair).mp inner⟩
    · intro inKey
      obtain ⟨pair, found, inner⟩ := inKey
      exact mem_intercalate_of_mem (List.mem_map_of_mem found) ((inPair pair).mpr inner)
  unfold appendQuery
  split
  · rename_i empty
    rw [List.isEmpty_iff] at empty
    simp [empty]
  · have between : c ∉ (if url.toList.contains '?' then "&" else "?").toList := by
      intro member
      split at member
      · obtain rfl : c = '&' := by simpa using member
        simp at sign
      · obtain rfl : c = '?' := by simpa using member
        simp at sign
    simp only [String.toList_append, List.mem_append, pairs, between, or_false]

theorem trimmed_pairEnd (value : List Char) : Trimmed ('=' :: percentEncode value) := by
  refine ⟨?_, ?_⟩
  · intro c first
    cases first
    rfl
  · intro c last
    rcases List.mem_cons.mp (List.mem_of_getLast? last) with rfl | encoded
    · rfl
    · exact isBlank_of_mem_percentEncode encoded

/-- A query takes no blank to the end of a URL. -/
theorem LineUrl.trimmed_appendQuery {url : String} (address : LineUrl url) (query : Members) :
    Trimmed (appendQuery url query).toList := by
  by_cases empty : query = []
  · rw [empty]
    exact address.trimmed
  · obtain ⟨middle, value, shape⟩ := appendQuery_ends url empty
    rw [shape, List.append_assoc]
    exact Trimmed.append address.trimmed (trimmed_pairEnd value) address.valid.ne_nil (by simp)
      middle

theorem LineUrl.appendQuery_iff {url : String} (address : LineUrl url) (query : Members) :
    LineUrl (appendQuery url query) ↔
      ∀ pair ∈ query, ' ' ∉ pair.1.toList ∧ '|' ∉ pair.1.toList := by
  have space := mem_appendQuery_iff (c := ' ') rfl (by decide) url query
  have bar := mem_appendQuery_iff (c := '|') rfl (by decide) url query
  apply Iff.intro
  · intro made pair member
    refine ⟨?_, ?_⟩
    · intro inKey
      exact made.valid.no_space (space.mpr (.inr ⟨pair, member, inKey⟩))
    · intro inKey
      exact made.no_bar (bar.mpr (.inr ⟨pair, member, inKey⟩))
  · intro keys
    by_cases empty : query = []
    · rw [empty]
      exact address
    · obtain ⟨middle, value, shape⟩ := appendQuery_ends url empty
      have leads := appendQuery_leads url query
      refine ⟨⟨?_, ?_, ?_⟩, ?_, ?_⟩
      · intro member
        rcases space.mp member with inUrl | inKey
        · exact address.valid.no_space inUrl
        · obtain ⟨pair, among, inner⟩ := inKey
          exact (keys pair among).1 inner
      · rcases address.valid.scheme with plain | secure
        · exact .inl (plain.trans leads)
        · exact .inr (secure.trans leads)
      · have long := address.valid.length
        have whole : appendQuery url query =
            url ++ String.ofList (middle ++ '=' :: percentEncode value) := by
          apply String.toList_inj.mp
          rw [shape, String.toList_append, String.toList_ofList, List.append_assoc]
        rw [String.ofList_toList] at long ⊢
        rw [whole, String.utf8ByteSize_append]
        omega
      · exact address.trimmed_appendQuery query
      · intro member
        rcases bar.mp member with inUrl | inKey
        · exact address.no_bar inUrl
        · obtain ⟨pair, among, inner⟩ := inKey
          exact (keys pair among).2 inner

end RequestLine
