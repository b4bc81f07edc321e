import RequestLine.Proofs.Line.Rendering
import RequestLine.Proofs.Request.Building

/-!
The order of the sections after the URL's.  The sections of an accepted line make a line again in
whatever order they are written, and every such line describes the request that the first one does.
-/

namespace RequestLine

open Text

/-- The place of a section among those after the URL's decides nothing about its part. -/
theorem Sections.ofLine_toLine_of_perm {line : String} {sections : Sections}
    (read : Sections.ofLine line = .ok sections) {trailing : List Section}
    (same : trailing.Perm sections.trailing) :
    Sections.ofLine (Sections.toLine { sections with trailing }) = .ok { sections with trailing } := by
  obtain ⟨http, url⟩ := keywords_of_line read
  -- Where a section stands in the new order, and where it stood in the accepted line.
  have origin : ∀ (position : Nat) (entry : Section),
      (Sections.toList { sections with trailing })[position]? = some entry →
      ∃ before, sections.toList[before]? = some entry ∧ (2 ≤ before → 2 ≤ position) := by
    intro position entry found
    match position, found with
    | 0, found => exact ⟨0, found, id⟩
    | 1, found => exact ⟨1, found, id⟩
    | later + 2, found =>
        have member : entry ∈ trailing := List.mem_of_getElem? found
        obtain ⟨before, known⟩ := List.mem_iff_getElem?.mp (same.mem_iff.mp member)
        exact ⟨before + 2, known, fun _ => by omega⟩
  have valid : ∀ (position : Nat) (entry : Section),
      (Sections.toList { sections with trailing })[position]? = some entry →
      ValidPart position entry.toPart ∧ Trimmed entry.toPart ∧ ' ' ∉ entry.keyword.toList := by
    intro position entry found
    obtain ⟨before, known, late⟩ := origin position entry found
    obtain ⟨validBefore, trimmed, single⟩ := Sections.validPart_of_ofLine read known
    exact ⟨validBefore.move late, trimmed, single⟩
  refine Sections.ofLine_toLine http url ?_ ?_ ?_
  · intro position entry found
    exact (valid position entry found).1
  · intro entry member
    obtain ⟨position, found⟩ := List.mem_iff_getElem?.mp member
    exact (valid position entry found).2.1
  · intro entry member
    obtain ⟨position, found⟩ := List.mem_iff_getElem?.mp member
    exact (valid position entry found).2.2

theorem Request.ofSections_of_perm {sections : Sections} {trailing : List Section}
    {request : Request} (same : trailing.Perm sections.trailing)
    (built : Request.ofSections sections = .ok request) :
    Request.ofSections { sections with trailing } = .ok request := by
  obtain ⟨method, url, payload, readMethod, readUrl, held, rfl⟩ :=
    Request.ofSections_eq_ok_iff.mp built
  exact Request.ofSections_eq_ok_iff.mpr
    ⟨method, url, payload, readMethod, readUrl, held.perm same, rfl⟩

/-- The sections of an accepted line, written with single separators and those after the URL's in any
order, are read as themselves, and they describe the same request in every order. -/
theorem ofLine_reordered {line : String} {sections : Sections}
    (read : Sections.ofLine line = .ok sections) {trailing : List Section}
    (same : trailing.Perm sections.trailing) :
    let entries := sections.http :: sections.url :: trailing
    let written := "[" ++ " | ".intercalate
      (entries.map fun entry => entry.keyword ++ " " ++ entry.value) ++ "]"
    (Sections.ofLine written).map Sections.toList = .ok entries ∧
      ∀ request, Request.ofSections sections = .ok request →
        Request.ofLine written = .ok request := by
  intro entries written
  have spelled : Sections.toLine { sections with trailing } = written := Sections.toLine_eq _
  have again := Sections.ofLine_toLine_of_perm read same
  rw [spelled] at again
  refine ⟨by rw [again]; rfl, ?_⟩
  intro request built
  rw [Request.ofLine, again, ok_bind]
  exact Request.ofSections_of_perm same built

theorem ofLine_reordered_tab :
    (Sections.ofLine
      "[HTTP GET | URL https://a.com/x | BODY \t[1] | QUERY \x7b\"b\":2,\"a\":1\x7d]").map
        Sections.toList =
      .ok [⟨"HTTP", "GET"⟩, ⟨"URL", "https://a.com/x"⟩, ⟨"BODY", "\t[1]"⟩,
        ⟨"QUERY", "\x7b\"b\":2,\"a\":1\x7d"⟩] ∧
    Request.ofLine
      "[HTTP GET | URL https://a.com/x | BODY \t[1] | QUERY \x7b\"b\":2,\"a\":1\x7d]" =
      .ok
        { method := .get
          url := "https://a.com/x"
          query := [("b", .integer 2), ("a", .integer 1)]
          body := .array [.integer 1]
          fullUrl := "https://a.com/x?b=2&a=1" } := by
  have read : Sections.ofLine
      " [ HTTP GET | URL https://a.com/x | QUERY \x7b\"b\":2,\"a\":1\x7d\t | \tBODY \t[1]\t ]" =
        .ok ⟨⟨"HTTP", "GET"⟩, ⟨"URL", "https://a.com/x"⟩,
          [⟨"QUERY", "\x7b\"b\":2,\"a\":1\x7d"⟩, ⟨"BODY", "\t[1]"⟩]⟩ := rfl
  have fullUrl : appendQuery "https://a.com/x" [("b", .integer 2), ("a", .integer 1)] =
      "https://a.com/x?b=2&a=1" := by decide
  have reordered := ofLine_reordered read (List.Perm.swap _ _ [])
  rw [← fullUrl]
  exact ⟨reordered.1, reordered.2 _ rfl⟩

end RequestLine
