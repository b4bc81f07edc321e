import RequestLine.Chain
import RequestLine.Proofs.Json.Reading
import RequestLine.Proofs.Request.Address

/-!
The line of a step: a URL, and after it what the step adds behind a separator.  If the line is accepted,
its request has that URL, even one that a query has made: a bar in a key would have to begin sections,
the last of which ends in an encoded value, and no JSON text does.
-/

namespace RequestLine

open Text

/-- Of two ends of a text that begin with signs of their own, the one whose sign the other has not
behind its own goes further back. -/
theorem suffix_of_absent {c d : Char} {later back whole : List Char} (different : c ≠ d)
    (first : c :: later <:+ whole) (second : d :: back <:+ whole) (absent : c ∉ back) :
    d :: back <:+ later := by
  rcases List.suffix_or_suffix_of_suffix first second with inside | around
  · rcases List.suffix_cons_iff.mp inside with same | deeper
    · exact absurd (List.cons.inj same).1 different
    · exact absurd (deeper.subset List.mem_cons_self) absent
  · rcases List.suffix_cons_iff.mp around with same | deeper
    · exact absurd (List.cons.inj same).1.symm different
    · exact deeper

/-- A part that ends in an equals sign and an encoded value is no section with a JSON text. -/
theorem not_decoded_of_pairEnd {part value : List Char} {entry : Section}
    (ends : '=' :: percentEncode value <:+ part) (cut : IsSectionOf part entry) :
    Json.ofText? (trim entry.value.toList) = none := by
  have keep : ∀ text, '=' :: percentEncode value <:+ text →
      ∃ left, trim text = left ++ '=' :: percentEncode value := by
    intro text ends
    obtain ⟨front, rfl⟩ := ends
    exact trim_append_trimmed (trimmed_pairEnd value) (by simp) front
  obtain ⟨left, shape⟩ := keep part ends
  have space : ' ' :: entry.value.toList <:+ trim part := by
    rw [cut.1]
    exact List.suffix_append _ _
  have inValue : '=' :: percentEncode value <:+ entry.value.toList := by
    refine suffix_of_absent (by decide) space ?_ (not_mem_percentEncode rfl (by decide) value)
    rw [shape]
    exact List.suffix_append _ _
  obtain ⟨front, text⟩ := keep _ inValue
  rw [text]
  cases read : Json.ofText? (front ++ '=' :: percentEncode value) with
  | none => rfl
  | some found =>
      obtain ⟨closing, member, inner⟩ := Json.closing_of_ofText? read
      obtain ⟨reserved, other⟩ : isUnreserved closing = false ∧ closing ≠ '%' := by
        simp only [Json.closings, List.mem_cons, List.not_mem_nil, or_false] at member
        rcases member with rfl | rfl | rfl <;> decide
      exact absurd inner (not_mem_percentEncode reserved other value)

/-- The last of several parts has the end of the joined text that has no space in it. -/
theorem pairEnd_of_joinParts {first last text value : List Char} {before : List (List Char)}
    (joined : joinParts (first :: (before ++ [last])) = text)
    (ends : '=' :: percentEncode value <:+ text) : '=' :: percentEncode value <:+ last := by
  obtain ⟨close, closed⟩ := closeParts_of_ne_nil (show first :: before ≠ [] from List.cons_ne_nil _ _)
  have lastEnds : ' ' :: last <:+ text := by
    rw [← joined, ← List.cons_append, joinParts_append_cons, closed]
    exact ⟨close ++ [' ', '|'], by simp [separator, openParts]⟩
  exact suffix_of_absent (by decide) lastEnds ends (not_mem_percentEncode rfl (by decide) value)

/-! ### The parts of a continued text -/

/-- What may follow a text in a line: nothing, or a separator and more. -/
def Continues (step : List Char) : Prop :=
  step = [] ∨ separator <+: step

/-- A separator after a text cuts it off, whatever follows; trimming takes at most the separator's own
last space, and then a bar is left without one. -/
theorem parts_of_continued {front step : List Char} {pieces : List (List Char)}
    (trimmed : Trimmed front) (nonempty : front ≠ []) (apart : ¬ [' ', '|'] <:+ front)
    (continues : Continues step) (cut : InteriorOf pieces (trim (front ++ step))) :
    ∃ others, pieces = parts front ++ others := by
  have started : ∀ text, trim (front ++ text) = trimEnd (front ++ text) := by
    intro text
    rw [trim, trimStart_eq_self]
    intro c first
    rw [List.head?_append_of_ne_nil _ nonempty] at first
    exact trimmed.1 c first
  rw [← cut.parts_eq]
  rcases continues with rfl | ⟨rest, rfl⟩
  · rw [List.append_nil, trimmed.trim_eq]
    exact ⟨[], (List.append_nil _).symm⟩
  · rw [started] at cut ⊢
    by_cases blank : trimEnd rest = []
    · have barLast : trimEnd (front ++ (separator ++ rest)) = (front ++ [' ']) ++ '|' :: [] := by
        have blanks : ∀ c ∈ ' ' :: rest, isBlank c := by
          simpa using ⟨rfl, trimEnd_eq_nil_iff.mp blank⟩
        have shape : front ++ (separator ++ rest) = (front ++ [' ', '|']) ++ (' ' :: rest) := by
          simp [separator]
        rw [shape, trimEnd_append_blanks blanks, trimEnd_append (by decide)]
        simp [trimEnd, trimStart, isBlank, blankRanges]
      have spaced := (barsSpaced_iff _).mp cut.spaced _ _ barLast
      exact absurd spaced.space_after (by simp)
    · have kept : trimEnd (front ++ (separator ++ rest)) = front ++ separator ++ trimEnd rest := by
        rw [← List.append_assoc, trimEnd_append blank]
      rw [kept, parts_append_parts apart]
      exact ⟨_, rfl⟩

/-! ### The line of a step -/

/-- A URL whose bars can begin no section: it has none, or it ends in an encoded value. -/
structure ContainedUrl (url : String) : Prop where
  ne_nil : url.toList ≠ []
  trimmed : Trimmed url.toList
  closed : '|' ∉ url.toList ∨ ∃ value, '=' :: percentEncode value <:+ url.toList

theorem ContainedUrl.last_ne_bar {url : String} (contained : ContainedUrl url) :
    url.toList.getLast? ≠ some '|' := by
  intro last
  rcases contained.closed with none | ⟨value, front, ends⟩
  · exact none (List.mem_of_getLast? last)
  · rw [← ends, List.getLast?_append_of_ne_nil _ (List.cons_ne_nil _ _)] at last
    have absent := not_mem_percentEncode (c := '|') rfl (by decide) value
    simpa [absent] using List.mem_of_getLast? last

theorem LineUrl.contained_appendQuery {url : String} (address : LineUrl url) (query : Members) :
    ContainedUrl (appendQuery url query) where
  ne_nil := by
    obtain ⟨more, whole⟩ := appendQuery_leads url query
    simp [← whole, address.valid.ne_nil]
  trimmed := address.trimmed_appendQuery query
  closed := by
    by_cases empty : query = []
    · rw [empty]
      exact .inl address.no_bar
    · obtain ⟨middle, value, ends⟩ := appendQuery_ends url empty
      exact .inr ⟨value, by rw [ends]; exact List.suffix_append _ _⟩

namespace Chain

theorem stepLine_toList (method : Method) (url step : String) :
    (stepLine method.name url step).toList =
      '[' :: (("HTTP ".toList ++ method.name.toList) ++ separator ++ ("URL ".toList ++ url.toList) ++
        step.toList) ++ [']'] := by
  simp [stepLine, separator]

/-- The parts of a step's line, whatever is in the URL: the method's, those of the URL, and those that
the step adds. -/
theorem parts_of_stepLine {method : Method} {url step : String} {pieces : List (List Char)}
    (contained : ContainedUrl url) (continues : Continues step.toList)
    (cut : Decomposes (stepLine method.name url step) pieces) :
    ∃ others, pieces =
      ("HTTP ".toList ++ method.name.toList) :: (parts ("URL ".toList ++ url.toList) ++ others) := by
  obtain ⟨content, bracketed, interior⟩ := cut
  have whole : Trimmed (stepLine method.name url step).toList := by
    rw [stepLine_toList]
    exact trimmed_enclosed rfl rfl _
  rw [whole.trim_eq, stepLine_toList] at bracketed
  obtain rfl := List.append_cancel_right (List.cons.inj bracketed).2
  have front : Trimmed ("HTTP ".toList ++ method.name.toList ++ separator ++
      ("URL ".toList ++ url.toList)) := by
    have http : Trimmed "HTTP".toList := by decide
    simpa using http.append contained.trimmed (by decide) contained.ne_nil
      ([' '] ++ method.name.toList ++ separator ++ "URL ".toList)
  have apart : ¬ [' ', '|'] <:+ "HTTP ".toList ++ method.name.toList ++ separator ++
      ("URL ".toList ++ url.toList) := by
    intro ending
    obtain ⟨before, shape⟩ := ending
    have ends := congrArg List.getLast? shape
    rw [← List.append_assoc _ "URL ".toList, List.getLast?_append_of_ne_nil _ contained.ne_nil] at ends
    exact contained.last_ne_bar (by rw [← ends]; simp)
  obtain ⟨others, rfl⟩ := parts_of_continued front (by simp) apart continues interior
  have single : '|' ∉ ("HTTP ".toList ++ method.name.toList).tail := by
    cases method <;> decide
  rw [parts_append_separator single]
  exact ⟨others, rfl⟩

/-- The URL is in one part if the parts after the first are read as sections with JSON texts. -/
theorem parts_of_urlPart {url : String} (contained : ContainedUrl url) {others : List (List Char)}
    {entry : Section} {entries : List Section}
    (related : List.Forall₂ IsSectionOf (parts ("URL ".toList ++ url.toList) ++ others)
      (entry :: entries))
    (decoded : ∀ entry ∈ entries, ∃ value, Json.ofText? (trim entry.value.toList) = some value) :
    parts ("URL ".toList ++ url.toList) = ["URL ".toList ++ url.toList] := by
  rcases contained.closed with none | ⟨value, ends⟩
  · exact parts_eq_singleton (by simpa using none)
  · have joined := joinParts_parts ("URL ".toList ++ url.toList)
    obtain ⟨first, rest, shape⟩ :=
      List.exists_cons_of_ne_nil (parts_ne_nil ("URL ".toList ++ url.toList))
    rw [shape] at joined related ⊢
    rcases List.eq_nil_or_concat rest with none | ⟨before, last, more⟩
    · subst none
      rw [← joined, joinParts_cons]
      simp [openParts]
    · -- The last part has the end of the URL and would have to be a section.
      rw [List.concat_eq_append] at more
      subst more
      rw [List.cons_append, List.forall₂_cons] at related
      have among : last ∈ before ++ [last] ++ others := by simp
      obtain ⟨found, member, lastCut⟩ := exists_related related.2 among
      obtain ⟨result, known⟩ := decoded found member
      have pair := ends.trans (List.suffix_append "URL ".toList url.toList)
      rw [not_decoded_of_pairEnd (pairEnd_of_joinParts joined pair) lastCut] at known
      contradiction

theorem value_of_urlPart {url : String} {entry : Section} (contained : ContainedUrl url)
    (cut : IsSectionOf ("URL ".toList ++ url.toList) entry) : entry.value = url := by
  have part : Trimmed ("URL ".toList ++ url.toList) := by
    have keyword : Trimmed "URL".toList := by decide
    exact keyword.append contained.trimmed (by decide) contained.ne_nil [' ']
  have asNamed : splitKeyword? ("URL ".toList ++ url.toList) = some ("URL".toList, url.toList) :=
    splitKeyword?_eq_some_iff.mpr ⟨rfl, by decide⟩
  have asRead := splitKeyword?_eq_some_iff.mpr cut
  rw [part.trim_eq, asNamed] at asRead
  exact String.toList_inj.mp (congrArg Prod.snd (Option.some.inj asRead)).symm

/-- A step that is accepted is about the URL that it was given. -/
theorem url_of_request {method : Method} {url step : String} {request : Request}
    (contained : ContainedUrl url) (continues : Continues step.toList)
    (read : Chain.request method.name url step = .ok request) : request.url = url := by
  obtain ⟨sections, cut, built⟩ := bind_eq_ok_iff.mp read
  obtain ⟨acceptable, describes⟩ := Request.ofSections_sound built
  obtain ⟨pieces, decomposed, related⟩ := Sections.ofLine_eq_ok_iff.mp cut
  obtain ⟨others, rfl⟩ := parts_of_stepLine contained continues decomposed
  rw [Sections.toList, List.forall₂_cons] at related
  obtain ⟨_, related⟩ := related
  have whole := parts_of_urlPart contained related fun entry member =>
    (acceptable.decoded entry member).imp fun _ found => found.1
  rw [whole, List.cons_append, List.forall₂_cons] at related
  have found := describes.url
  rw [value_of_urlPart contained related.1, contained.trimmed.trim_eq] at found
  exact (String.toList_inj.mp found).symm

end Chain
end RequestLine
