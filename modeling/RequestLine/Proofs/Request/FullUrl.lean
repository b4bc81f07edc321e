import RequestLine.Proofs.Request.Continuing

/-!
The line of a method and a URL alone.  It is read again as that, and if the URL has come from a query
no key of it can make the line one of more sections: the last of them would end in an encoded value,
and no JSON text does.
-/

namespace RequestLine

open Text

/-- The line of a method and a URL. -/
def shortLine (method : Method) (url : String) : String :=
  "[HTTP " ++ method.name ++ " | URL " ++ url ++ "]"

theorem Request.ofLine_shortLine {url : String} (address : LineUrl url) (method : Method) :
    Request.ofLine (shortLine method url) = .ok { method, url } := by
  let sections : Sections := ⟨⟨"HTTP", method.name⟩, ⟨"URL", url⟩, []⟩
  have http : Solid "HTTP".toList := by decide
  have keyword : Solid "URL".toList := by decide
  have line : sections.toLine = shortLine method url := by
    apply String.toList_inj.mp
    simp [sections, Sections.toLine, Sections.toList, Section.toPart, shortLine, joinParts,
      separator, List.intercalate]
  have read : Sections.ofLine sections.toLine = .ok sections := by
    apply Sections.ofLine_toLine_of_solid rfl rfl
    intro entry member
    simp only [sections, Sections.toList, List.mem_cons, List.not_mem_nil, or_false] at member
    rcases member with rfl | rfl
    · exact ⟨http, method.name_solid⟩
    · exact ⟨keyword, address.solid⟩
  have trimmed : trim url.toList = url.toList := address.trimmed.trim_eq
  have named : trim method.name.toList = method.name.toList := method.name_solid.trimmed.trim_eq
  rw [Request.ofLine, ← line, read, ok_bind]
  refine Request.ofSections_of_describes rfl rfl ⟨?_, ?_, .nil, ?_, ?_⟩
    ⟨named, trimmed, ?_, ?_, ?_, rfl⟩
  · change trim method.name.toList = "GET".toList ∨ trim method.name.toList = "POST".toList
    rw [named]
    cases method with
    | get => exact .inl rfl
    | post => exact .inr rfl
  · change ValidUrl (trim url.toList)
    rw [trimmed]
    exact address.valid
  · simp [sections]
  · simp [sections]
  · exact .inr ⟨by simp [sections], rfl⟩
  · exact .inr ⟨by simp [sections], rfl⟩
  · exact .inr ⟨by simp [sections], rfl⟩

/-- If a short line is accepted and its URL ends like a query, the URL can stand in a line. -/
theorem lineUrl_of_shortLine {method : Method} {url : String} {request : Request}
    {front value : List Char} (ends : url.toList = front ++ '=' :: percentEncode value)
    (trimmed : Trimmed url.toList)
    (read : Request.ofLine (shortLine method url) = .ok request) : LineUrl url := by
  have contained : ContainedUrl url :=
    ⟨by simp [ends], trimmed, .inr ⟨value, by rw [ends]; exact List.suffix_append _ _⟩⟩
  have step : Chain.request method.name url "" = .ok request := by
    simpa [Chain.request, Chain.stepLine, shortLine] using read
  have address := Request.lineUrl_of_ofLine read
  rw [Chain.url_of_request contained (.inl rfl) step] at address
  exact address

/-- The line of the method and the full URL of an accepted request is accepted exactly if no key of the
query has a space or a bar in it, and then it says no more than the method and that URL. -/
theorem ofLine_fullUrl {line : String} {request : Request}
    (read : Request.ofLine line = .ok request) :
    ((∃ again, Request.ofLine
        ("[HTTP " ++ request.method.name ++ " | URL " ++ request.fullUrl ++ "]") = .ok again) ↔
      ∀ pair ∈ request.query, ' ' ∉ pair.1.toList ∧ '|' ∉ pair.1.toList) ∧
    ∀ again, Request.ofLine
        ("[HTTP " ++ request.method.name ++ " | URL " ++ request.fullUrl ++ "]") = .ok again →
      again =
        { method := request.method
          url := request.fullUrl
          headers := []
          query := []
          body := .object []
          fullUrl := request.fullUrl } := by
  have address := Request.lineUrl_of_ofLine read
  have fullUrl := Request.fullUrl_of_ofLine read
  have keys := address.appendQuery_iff request.query
  have accepted : ∀ again, Request.ofLine (shortLine request.method request.fullUrl) = .ok again →
      LineUrl request.fullUrl := by
    intro again readAgain
    by_cases empty : request.query = []
    · rw [fullUrl, empty]
      exact address
    · obtain ⟨middle, value, shape⟩ := appendQuery_ends request.url empty
      rw [fullUrl] at readAgain ⊢
      exact lineUrl_of_shortLine shape (address.trimmed_appendQuery request.query) readAgain
  rw [← fullUrl] at keys
  refine ⟨⟨?_, ?_⟩, ?_⟩
  · intro readable
    obtain ⟨again, readAgain⟩ := readable
    exact keys.mp (accepted again readAgain)
  · intro harmless
    exact ⟨_, Request.ofLine_shortLine (keys.mpr harmless) request.method⟩
  · intro again readAgain
    have short := Request.ofLine_shortLine (accepted again readAgain) request.method
    exact (Except.ok.inj (short.symm.trans readAgain)).symm

/-- A key that would forge a section makes the full URL one that no line can hold; a key that is a word
leaves it one that is read again. -/
theorem ofLine_fullUrl_forged :
    (∃ request,
      Request.ofLine "[HTTP GET | URL https://a.com/x | QUERY \x7b\"a \\u007c BODY 1\":2\x7d]" =
        .ok request ∧
      request.fullUrl = "https://a.com/x?a | BODY 1=2" ∧
      ¬ ∃ again, Request.ofLine "[HTTP GET | URL https://a.com/x?a | BODY 1=2]" = .ok again) ∧
    ∃ request,
      Request.ofLine "[HTTP POST | URL https://a.com/x | BODY 1 | QUERY \x7b\"a\":\"b c\"\x7d]" =
        .ok request ∧
      request.fullUrl = "https://a.com/x?a=b%20c" ∧
      Request.ofLine "[HTTP POST | URL https://a.com/x?a=b%20c]" =
        .ok { method := .post, url := "https://a.com/x?a=b%20c" } := by
  have forged : appendQuery "https://a.com/x" [("a | BODY 1", .integer 2)] =
      "https://a.com/x?a | BODY 1=2" := by decide
  have harmless : appendQuery "https://a.com/x" [("a", .string "b c")] =
      "https://a.com/x?a=b%20c" := by decide
  have readForged : Request.ofLine
      "[HTTP GET | URL https://a.com/x | QUERY \x7b\"a \\u007c BODY 1\":2\x7d]" =
        .ok
          { method := .get
            url := "https://a.com/x"
            query := [("a | BODY 1", .integer 2)]
            fullUrl := "https://a.com/x?a | BODY 1=2" } := by
    rw [← forged]
    rfl
  have readHarmless : Request.ofLine
      "[HTTP POST | URL https://a.com/x | BODY 1 | QUERY \x7b\"a\":\"b c\"\x7d]" =
        .ok
          { method := .post
            url := "https://a.com/x"
            query := [("a", .string "b c")]
            body := .integer 1
            fullUrl := "https://a.com/x?a=b%20c" } := by
    rw [← harmless]
    rfl
  refine ⟨⟨_, readForged, rfl, ?_⟩, ⟨_, readHarmless, rfl, ?_⟩⟩
  · intro readable
    have words := (ofLine_fullUrl readForged).1.mp readable
    exact absurd (words _ List.mem_cons_self).1 (by decide)
  · obtain ⟨accepted, only⟩ := ofLine_fullUrl readHarmless
    obtain ⟨again, readAgain⟩ := accepted.mpr (List.forall_mem_singleton.mpr (by decide))
    rw [only again readAgain] at readAgain
    exact readAgain

end RequestLine
