import RequestLine.Proofs.Line.Places
import RequestLine.Proofs.Request.Refusal

/-!
The reading of a request by places: the first two sections by theirs, the others from the third on.
Every line has a result, and what the structure of the line has settled is never found to be missing.
-/

namespace RequestLine

namespace Request

def ofLineByPlace (line : String) : ByPlace Request := do
  let entries ← Sections.ofLineByPlace line
  let method ← ByPlace.ofExcept (Method.ofSection (← ByPlace.get entries 0))
  let url ← ByPlace.ofExcept (urlOfSection (← ByPlace.get entries 1))
  let payload ← ByPlace.ofExcept (Payload.ofSections (← ByPlace.drop entries 2))
  return ({ method, url : Request }.withPayload payload).withFullUrl

theorem run_ofLineByPlace (line : String) : (ofLineByPlace line).run = some (ofLine line) := by
  have read : Sections.ofLineByPlace line =
      ByPlace.ofExcept ((Sections.ofLine line).map Sections.toList) :=
    Sections.run_ofLineByPlace line
  rw [ofLineByPlace, read, ofLine]
  cases Sections.ofLine line with
  | error cause => rfl
  | ok sections =>
      rw [ok_bind, ofSections]
      change (do
        let method ← ByPlace.ofExcept (Method.ofSection sections.http)
        let url ← ByPlace.ofExcept (urlOfSection sections.url)
        let payload ← ByPlace.ofExcept (Payload.ofSections sections.trailing)
        return ({ method, url : Request }.withPayload payload).withFullUrl : ByPlace Request).run = _
      cases Method.ofSection sections.http with
      | error cause => rfl
      | ok method =>
          cases urlOfSection sections.url with
          | error cause => rfl
          | ok url => cases Payload.ofSections sections.trailing <;> rfl

end Request

/-- No line makes the reading ask for a place that is not there. An accepted line has the two sections
that are looked up first, and no section of it is empty; a line that is refused is refused for its
text, with the status of a bad request. -/
theorem ofLine_by_place (line : String) :
    (Sections.ofLineByPlace line).run = some ((Sections.ofLine line).map Sections.toList) ∧
    (Request.ofLineByPlace line).run = some (Request.ofLine line) ∧
    (∀ entries, (Sections.ofLineByPlace line).run = some (.ok entries) →
      ∃ http url trailing, entries = http :: url :: trailing ∧
        http.keyword = "HTTP" ∧ url.keyword = "URL" ∧ ∀ entry ∈ entries, entry.Filled) ∧
    ∀ cause, (Request.ofLineByPlace line).run = some (.error cause) →
      cause.InLine ∧ cause.status = 400 := by
  refine ⟨Sections.run_ofLineByPlace line, Request.run_ofLineByPlace line, ?_, ?_⟩
  · intro entries accepted
    rw [Sections.run_ofLineByPlace, Option.some.injEq] at accepted
    cases read : Sections.ofLine line with
    | error cause => simp [read, Except.map] at accepted
    | ok sections =>
        obtain rfl : sections.toList = entries := by simpa [read, Except.map] using accepted
        obtain ⟨http, url⟩ := keywords_of_line read
        exact ⟨sections.http, sections.url, sections.trailing, rfl, http, url, filled_of_line read⟩
  · intro cause refused
    rw [Request.run_ofLineByPlace, Option.some.injEq] at refused
    have inLine := Request.failsOnly_ofLine line cause refused
    exact ⟨inLine, inLine.status⟩

theorem ofLine_by_place_broken_body :
    (∃ entries, (Sections.ofLineByPlace "[HTTP GET | URL https://é.com | BODY \u00a0\x7b]").run =
        some (.ok entries) ∧ ⟨"BODY", "\u00a0\x7b"⟩ ∈ entries ∧ ∀ entry ∈ entries, entry.Filled) ∧
    (Request.ofLineByPlace "[HTTP GET | URL https://é.com | BODY \u00a0\x7b]").run =
      some (.error (.invalidJson "BODY")) ∧
    (RequestError.invalidJson "BODY").InLine := by
  obtain ⟨readLine, readRequest, known, inLine⟩ :=
    ofLine_by_place "[HTTP GET | URL https://é.com | BODY \u00a0\x7b]"
  have accepted : (Sections.ofLineByPlace "[HTTP GET | URL https://é.com | BODY \u00a0\x7b]").run =
      some (.ok [⟨"HTTP", "GET"⟩, ⟨"URL", "https://é.com"⟩, ⟨"BODY", "\u00a0\x7b"⟩]) :=
    readLine.trans rfl
  have refused : (Request.ofLineByPlace "[HTTP GET | URL https://é.com | BODY \u00a0\x7b]").run =
      some (.error (.invalidJson "BODY")) := readRequest.trans rfl
  obtain ⟨_, _, _, _, _, _, filled⟩ := known _ accepted
  exact ⟨⟨_, accepted, by simp, filled⟩, refused, (inLine _ refused).1⟩

end RequestLine
