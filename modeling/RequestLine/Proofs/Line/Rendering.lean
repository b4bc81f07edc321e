import RequestLine.Proofs.Line.Grammar

/-!
The line of given sections.  Sections whose parts are valid and have no blanks to lose are read back
from their line; so are those whose keywords and values have neither spaces nor bars, and those that a
line was read as.
-/

namespace RequestLine

open Text

theorem trimmed_joinParts {pieces : List (List Char)} (nonempty : pieces ≠ [])
    (trimmed : ∀ piece ∈ pieces, Trimmed piece ∧ piece ≠ []) : Trimmed (joinParts pieces) := by
  obtain ⟨first, rest, rfl⟩ := List.exists_cons_of_ne_nil nonempty
  rcases List.eq_nil_or_concat rest with empty | ⟨others, last, shape⟩
  · subst empty
    rw [joinParts_cons]
    simpa [openParts] using (trimmed first (by simp)).1
  · rw [List.concat_eq_append] at shape
    subst shape
    obtain ⟨firstTrimmed, firstNonempty⟩ := trimmed first (by simp)
    obtain ⟨lastTrimmed, lastNonempty⟩ := trimmed last (by simp)
    have shape : joinParts (first :: (others ++ [last])) =
        first ++ ((openParts others ++ separator) ++ last) := by
      simp [joinParts_cons, openParts]
    rw [shape]
    exact Trimmed.append firstTrimmed lastTrimmed firstNonempty lastNonempty _

theorem Section.toPart_ne_nil (entry : Section) : entry.toPart ≠ [] := by
  simp [Section.toPart]

/-- The line of sections is accepted with the same sections. -/
theorem Sections.ofLine_toLine {sections : Sections} (http : sections.http.keyword = "HTTP")
    (url : sections.url.keyword = "URL")
    (valid : ∀ position entry, sections.toList[position]? = some entry →
      ValidPart position entry.toPart)
    (trimmed : ∀ entry ∈ sections.toList, Trimmed entry.toPart)
    (single : ∀ entry ∈ sections.toList, ' ' ∉ entry.keyword.toList) :
    Sections.ofLine sections.toLine = .ok sections := by
  rw [Sections.ofLine_eq_ok_iff]
  have interior : Trimmed (joinParts (sections.toList.map Section.toPart)) := by
    refine trimmed_joinParts (by simp [Sections.toList]) ?_
    intro piece member
    obtain ⟨entry, entryMember, rfl⟩ := List.mem_map.mp member
    exact ⟨trimmed entry entryMember, entry.toPart_ne_nil⟩
  have bracketed : Trimmed sections.toLine.toList := by
    rw [Sections.toLine, String.toList_ofList]
    exact trimmed_enclosed rfl rfl _
  refine ⟨sections.toList.map Section.toPart,
    ⟨joinParts (sections.toList.map Section.toPart), ?_, ⟨interior.trim_eq, ?_, ?_, ?_⟩⟩, ?_⟩
  · rw [bracketed.trim_eq, Sections.toLine, String.toList_ofList]
  · intro position part found
    rw [List.getElem?_map, Option.map_eq_some_iff] at found
    obtain ⟨entry, entryFound, rfl⟩ := found
    exact valid position entry entryFound
  · refine ⟨sections.http.toPart, rfl, ?_⟩
    rw [(trimmed sections.http (by simp [Sections.toList])).trim_eq, Section.toPart, http]
    exact ⟨sections.http.value.toList, rfl⟩
  · refine ⟨sections.url.toPart, rfl, ?_⟩
    rw [(trimmed sections.url (by simp [Sections.toList])).trim_eq, Section.toPart, url]
    exact ⟨sections.url.value.toList, rfl⟩
  · rw [List.forall₂_map_left_iff, List.forall₂_same]
    intro entry member
    refine ⟨?_, single entry member⟩
    rw [(trimmed entry member).trim_eq, Section.toPart]

/-- A text that can be a keyword or a value as it is. -/
structure Solid (text : List Char) : Prop where
  ne_nil : text ≠ []
  trimmed : Trimmed text
  no_space : ' ' ∉ text
  no_bar : '|' ∉ text

instance (text : List Char) : Decidable (Solid text) :=
  decidable_of_iff (text ≠ [] ∧ Trimmed text ∧ ' ' ∉ text ∧ '|' ∉ text)
    ⟨fun ⟨ne_nil, trimmed, no_space, no_bar⟩ => ⟨ne_nil, trimmed, no_space, no_bar⟩,
      fun solid => ⟨solid.ne_nil, solid.trimmed, solid.no_space, solid.no_bar⟩⟩

theorem Solid.trimmed_part {keyword value : List Char} (solidKeyword : Solid keyword)
    (solidValue : Solid value) : Trimmed (keyword ++ ' ' :: value) :=
  Trimmed.append solidKeyword.trimmed solidValue.trimmed solidKeyword.ne_nil solidValue.ne_nil [' ']

theorem Solid.validPart {keyword value : List Char} (solidKeyword : Solid keyword)
    (solidValue : Solid value) (position : Nat) : ValidPart position (keyword ++ ' ' :: value) := by
  have trimmed := solidKeyword.trimmed_part solidValue
  refine ⟨?_, ?_, ?_, ?_, ?_⟩
  · intro first
    have solid := trimmed.1 ' ' first
    contradiction
  · intro last
    have solid := trimmed.2 ' ' last
    contradiction
  · intro double
    have once : (keyword ++ ' ' :: value).count ' ' = 1 := by
      rw [List.count_append, List.count_cons_self, List.count_eq_zero.mpr solidKeyword.no_space,
        List.count_eq_zero.mpr solidValue.no_space]
    have twice : 2 ≤ (keyword ++ ' ' :: value).count ' ' := double.count_le ' '
    omega
  · intro before after cut
    have member : '|' ∈ keyword ++ ' ' :: value := by simp [cut]
    simp [solidKeyword.no_bar, solidValue.no_bar] at member
  · rw [trimmed.trim_eq]
    simp

theorem Sections.ofLine_toLine_of_solid {sections : Sections}
    (http : sections.http.keyword = "HTTP") (url : sections.url.keyword = "URL")
    (solid : ∀ entry ∈ sections.toList, Solid entry.keyword.toList ∧ Solid entry.value.toList) :
    Sections.ofLine sections.toLine = .ok sections := by
  refine Sections.ofLine_toLine http url ?_ ?_ ?_
  · intro position entry found
    obtain ⟨keyword, value⟩ := solid entry (List.mem_of_getElem? found)
    exact keyword.validPart value position
  · intro entry member
    obtain ⟨keyword, value⟩ := solid entry member
    exact keyword.trimmed_part value
  · intro entry member
    exact (solid entry member).1.no_space

/-! ### Sections that a line was read as -/

theorem Sections.toLine_eq (sections : Sections) :
    sections.toLine = "[" ++ " | ".intercalate
      (sections.toList.map fun entry => entry.keyword ++ " " ++ entry.value) ++ "]" := by
  have parts : (sections.toList.map fun entry => entry.keyword ++ " " ++ entry.value).map
      String.toList = sections.toList.map Section.toPart := by
    rw [List.map_map]
    apply List.map_congr_left
    intro entry _
    simp [Section.toPart]
  apply String.toList_inj.mp
  simp only [toLine, joinParts, String.toList_append, String.toList_intercalate, parts,
    String.toList_ofList]
  rfl

/-- A valid part stays valid without the blanks at its ends. -/
theorem ValidPart.trim {position : Nat} {part : List Char} (valid : ValidPart position part) :
    ValidPart position (trim part) := by
  have trimmed := trimmed_trim part
  have inside := trim_inside part
  refine ⟨?_, ?_, ?_, ?_, ?_⟩
  · intro first
    have solid := trimmed.1 ' ' first
    contradiction
  · intro last
    have solid := trimmed.2 ' ' last
    contradiction
  · intro double
    exact valid.single_spaces (double.trans inside)
  · intro before after cut
    obtain ⟨left, right, whole⟩ := inside
    rw [cut] at whole
    obtain ⟨late, leads, spaceAfter⟩ :=
      valid.leading_bar (left ++ before) (after ++ right) (by simp [← whole])
    obtain ⟨_, rfl⟩ := List.append_eq_nil_iff.mp leads
    refine ⟨late, rfl, ?_⟩
    -- The part has a space within, so the bar is not all that is left of it.
    cases after with
    | nil =>
        have space := valid.has_space
        rw [cut] at space
        contradiction
    | cons c after => simpa using spaceAfter
  · rw [trimmed.trim_eq]
    exact valid.has_space

/-- After the URL's part the place of a part does not matter. -/
theorem ValidPart.move {position other : Nat} {part : List Char} (valid : ValidPart position part)
    (late : 2 ≤ position → 2 ≤ other) : ValidPart other part where
  head_ne_space := valid.head_ne_space
  last_ne_space := valid.last_ne_space
  single_spaces := valid.single_spaces
  leading_bar before after cut := by
    obtain ⟨place, leads, spaceAfter⟩ := valid.leading_bar before after cut
    exact ⟨late place, leads, spaceAfter⟩
  has_space := valid.has_space

theorem IsSectionOf.toPart {part : List Char} {entry : Section} (cut : IsSectionOf part entry) :
    entry.toPart = trim part :=
  cut.1.symm

/-- Each section of an accepted line could stand in a line as it is. -/
theorem Sections.validPart_of_ofLine {line : String} {sections : Sections}
    (read : Sections.ofLine line = .ok sections) {position : Nat} {entry : Section}
    (found : sections.toList[position]? = some entry) :
    ValidPart position entry.toPart ∧ Trimmed entry.toPart ∧ ' ' ∉ entry.keyword.toList := by
  obtain ⟨pieces, ⟨_, _, interior⟩, related⟩ := Sections.ofLine_eq_ok_iff.mp read
  obtain ⟨bound, rfl⟩ := List.getElem?_eq_some_iff.mp found
  have piece : position < pieces.length := related.length_eq ▸ bound
  have cut : IsSectionOf pieces[position] sections.toList[position] := related.get piece bound
  rw [cut.toPart]
  exact ⟨(interior.valid position _ (List.getElem?_eq_getElem piece)).trim, trimmed_trim _, cut.2⟩

end RequestLine
