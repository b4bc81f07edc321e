import RequestLine.Proofs.Json.Reading
import RequestLine.Proofs.Json.Signs
import RequestLine.Proofs.Request.Address

/-!
The line that is written for a request, and what is read from it.  It is the request itself unless an
object in it begins with the key that embeds a text.
-/

namespace RequestLine

open Text

/-- A value whose text the reader is deep enough for. -/
structure Json.Sendable (value : Json) : Prop where
  plain : value.Plain
  shallow : value.depth ≤ 127

/-- The compact text of a value, in which spaces and bars are written by their code. -/
def lineText (value : Json) : String :=
  .ofList (Json.writeWith Json.lineEscape value)

theorem lineText_toList (value : Json) :
    (lineText value).toList = Json.writeWith Json.lineEscape value :=
  String.toList_ofList

theorem Json.Sendable.ofText? {value : Json} (sendable : value.Sendable)
    (unembedded : value.Unembedded) : Json.ofText? (trim (lineText value).toList) = some value := by
  rw [lineText_toList, sendable.plain.trimmed.trim_eq]
  exact Json.ofText?_writeWith Json.reversible_lineEscape sendable.plain unembedded
    sendable.shallow

namespace Request

theorem toLine_eq (request : Request) :
    request.toLine =
      "[HTTP " ++ request.method.name ++ " | URL " ++ request.url ++
        " | HEADERS " ++ lineText (.object request.headers) ++
        " | QUERY " ++ lineText (.object request.query) ++
        " | BODY " ++ lineText request.body ++ "]" := by
  apply String.toList_inj.mp
  simp [toLine, toSections, Sections.toLine, Sections.toList, Section.toPart, joinParts, separator,
    List.intercalate, Slot.keyword, lineText]

theorem ofLine_toLine_eq {request : Request} (address : LineUrl request.url)
    (headers : (Json.object request.headers).Plain) (query : (Json.object request.query).Plain)
    (body : request.body.Plain) :
    Request.ofLine request.toLine = Request.ofSections request.toSections := by
  have http : Solid "HTTP".toList := by decide
  have url : Solid "URL".toList := by decide
  have keyword : ∀ slot : Slot, Solid slot.keyword.toList := by
    intro slot
    cases slot <;> decide
  have read : Sections.ofLine request.toLine = .ok request.toSections := by
    apply Sections.ofLine_toLine_of_solid rfl rfl
    intro entry member
    simp only [Sections.toList, toSections, List.mem_cons, List.not_mem_nil, or_false] at member
    rcases member with rfl | rfl | rfl | rfl | rfl
    · exact ⟨http, request.method.name_solid⟩
    · exact ⟨url, address.solid⟩
    · exact ⟨keyword .headers, by rw [String.toList_ofList]; exact headers.solid⟩
    · exact ⟨keyword .query, by rw [String.toList_ofList]; exact query.solid⟩
    · exact ⟨keyword .body, by rw [String.toList_ofList]; exact body.solid⟩
  rw [Request.ofLine, read, ok_bind]

/-- What the values of the written sections stand for, if they embed no text. -/
theorem ofSections_toSections {request : Request}
    (fullUrl : request.fullUrl = appendQuery request.url request.query)
    (address : LineUrl request.url)
    (headers : Json.ofText? (trim (lineText (.object request.headers)).toList) =
      some (.object request.headers))
    (query : Json.ofText? (trim (lineText (.object request.query)).toList) =
      some (.object request.query))
    (body : Json.ofText? (trim (lineText request.body).toList) = some request.body) :
    Request.ofSections request.toSections = .ok request := by
  have url : trim request.url.toList = request.url.toList := address.trimmed.trim_eq
  have method : trim request.method.name.toList = request.method.name.toList :=
    request.method.name_solid.trimmed.trim_eq
  refine Request.ofSections_of_describes rfl rfl ⟨?_, ?_, ?_, ?_, ?_⟩
    ⟨method, url, ?_, ?_, ?_, fullUrl⟩
  · cases named : request.method with
    | get => exact .inl (by simp only [toSections, named]; rfl)
    | post => exact .inr (by simp only [toSections, named]; rfl)
  · change ValidUrl (trim request.url.toList)
    rw [url]
    exact address.valid
  · simp [toSections, Slot.keyword]
  · intro entry member
    simp only [toSections, List.mem_cons, List.not_mem_nil, or_false] at member
    rcases member with rfl | rfl | rfl
    · exact .inl rfl
    · exact .inr (.inl rfl)
    · exact .inr (.inr rfl)
  · intro entry member
    simp only [toSections, List.mem_cons, List.not_mem_nil, or_false] at member
    rcases member with rfl | rfl | rfl
    · exact ⟨_, headers, fun _ => ⟨request.headers, rfl⟩⟩
    · exact ⟨_, query, fun _ => ⟨request.query, rfl⟩⟩
    · exact ⟨_, body, fun notBody => absurd rfl notBody⟩
  · exact .inl ⟨⟨"HEADERS", lineText (.object request.headers)⟩, List.mem_cons_self, rfl, headers⟩
  · exact .inl ⟨⟨"QUERY", lineText (.object request.query)⟩,
      List.mem_cons_of_mem _ List.mem_cons_self, rfl, query⟩
  · exact .inl ⟨⟨"BODY", lineText request.body⟩,
      List.mem_cons_of_mem _ (List.mem_cons_of_mem _ List.mem_cons_self), rfl, body⟩

/-- No value that is read from a written section embeds a text. -/
theorem unembedded_of_toSections {request : Request}
    (read : Request.ofSections request.toSections = .ok request) :
    (Json.object request.headers).Unembedded ∧ (Json.object request.query).Unembedded ∧
      request.body.Unembedded :=
  (Request.ofSections_sound read).2.inherits Json.inherited_unembedded

end Request

/-- A line that is written for a request is read as that request exactly if none of its objects begins
with the key that embeds a text. -/
theorem ofLine_written_iff {method : Method} {url : String} {headers query : Members}
    {body : Json} (address : LineUrl url) (sendableHeaders : (Json.object headers).Sendable)
    (sendableQuery : (Json.object query).Sendable) (sendableBody : body.Sendable) :
    (∃ request, Request.ofLine
        ("[HTTP " ++ method.name ++ " | URL " ++ url ++
          " | HEADERS " ++ lineText (.object headers) ++
          " | QUERY " ++ lineText (.object query) ++
          " | BODY " ++ lineText body ++ "]") = .ok request ∧
      request.method = method ∧ request.url = url ∧ request.headers = headers ∧
      request.query = query ∧ request.body = body ∧
      request.fullUrl = appendQuery url query) ↔
    (Json.object headers).Unembedded ∧ (Json.object query).Unembedded ∧ body.Unembedded := by
  let written : Request :=
    { method, url, headers, query, body, fullUrl := appendQuery url query }
  have line : written.toLine = _ := written.toLine_eq
  have read : Request.ofLine written.toLine = Request.ofSections written.toSections :=
    Request.ofLine_toLine_eq address sendableHeaders.plain sendableQuery.plain sendableBody.plain
  rw [← line, read]
  apply Iff.intro
  · intro back
    obtain ⟨request, built, rfl, rfl, rfl, rfl, rfl, _⟩ := back
    exact Request.unembedded_of_toSections built
  · intro unembedded
    obtain ⟨unembeddedHeaders, unembeddedQuery, unembeddedBody⟩ := unembedded
    refine ⟨written, ?_, rfl, rfl, rfl, rfl, rfl, rfl⟩
    exact Request.ofSections_toSections rfl address (sendableHeaders.ofText? unembeddedHeaders)
      (sendableQuery.ofText? unembeddedQuery) (sendableBody.ofText? unembeddedBody)

theorem ofLine_written_bar :
    ∃ request, Request.ofLine
        ("[HTTP POST | URL https://a.com/x | HEADERS \x7b\"h\":\"a\\u0020b\"\x7d" ++
          " | QUERY \x7b\"k\":-3\x7d | BODY [\"p\\u007cq\",null]]") = .ok request ∧
      request.method = .post ∧ request.url = "https://a.com/x" ∧
      request.headers = [("h", .string "a b")] ∧ request.query = [("k", .integer (-3))] ∧
      request.body = .array [.string "p|q", .null] ∧
      request.fullUrl = appendQuery "https://a.com/x" [("k", .integer (-3))] := by
  have address : LineUrl "https://a.com/x" :=
    ⟨⟨by decide, .inr ⟨"a.com/x".toList, rfl⟩, by decide⟩, by decide, by decide⟩
  have headers : (Json.object [("h", .string "a b")]).Plain :=
    .object (by decide) (by simpa using Json.Plain.string "a b")
  have query : (Json.object [("k", .integer (-3))]).Plain :=
    .object (by decide) (by simpa using Json.Plain.integer ⟨by decide, by decide⟩)
  have body : (Json.array [.string "p|q", .null]).Plain :=
    .array (by simpa using ⟨Json.Plain.string "p|q", Json.Plain.null⟩)
  have line : "[HTTP " ++ Method.post.name ++ " | URL " ++ "https://a.com/x" ++
      " | HEADERS " ++ lineText (.object [("h", .string "a b")]) ++
      " | QUERY " ++ lineText (.object [("k", .integer (-3))]) ++
      " | BODY " ++ lineText (.array [.string "p|q", .null]) ++ "]" =
      "[HTTP POST | URL https://a.com/x | HEADERS \x7b\"h\":\"a\\u0020b\"\x7d" ++
        " | QUERY \x7b\"k\":-3\x7d | BODY [\"p\\u007cq\",null]]" := by decide
  rw [← line]
  exact (ofLine_written_iff address ⟨headers, by decide⟩ ⟨query, by decide⟩
    ⟨body, by decide⟩).mpr ⟨
      .object (by decide) (by simpa using Json.Unembedded.string "a b"),
      .object (by decide) (by simpa using Json.Unembedded.integer (-3)),
      .array (by simpa using ⟨Json.Unembedded.string "p|q", Json.Unembedded.null⟩)⟩

/-- A body that begins with the key that embeds a text is read as the value of that text. -/
theorem ofLine_written_embedding :
    LineUrl "https://a.com/x" ∧ (Json.object []).Sendable ∧
    (Json.object [(Json.embeddingKey, .string "1")]).Sendable ∧
    ¬ ∃ request, Request.ofLine
        ("[HTTP " ++ Method.get.name ++ " | URL " ++ "https://a.com/x" ++
          " | HEADERS " ++ lineText (.object []) ++
          " | QUERY " ++ lineText (.object []) ++
          " | BODY " ++ lineText (.object [(Json.embeddingKey, .string "1")]) ++ "]") =
            .ok request ∧
      request.method = .get ∧ request.url = "https://a.com/x" ∧ request.headers = [] ∧
      request.query = [] ∧ request.body = .object [(Json.embeddingKey, .string "1")] ∧
      request.fullUrl = appendQuery "https://a.com/x" [] := by
  have address : LineUrl "https://a.com/x" :=
    ⟨⟨by decide, .inr ⟨"a.com/x".toList, rfl⟩, by decide⟩, by decide, by decide⟩
  have empty : (Json.object []).Plain := .object (by decide) (by simp)
  have body : (Json.object [(Json.embeddingKey, .string "1")]).Plain :=
    .object (by decide) (by simpa using Json.Plain.string "1")
  refine ⟨address, ⟨empty, by decide⟩, ⟨body, by decide⟩, ?_⟩
  intro back
  obtain ⟨request, read, _, _, _, _, kept, _⟩ := back
  have embedded : Request.ofLine
      ("[HTTP GET | URL https://a.com/x | HEADERS \x7b\x7d | QUERY \x7b\x7d" ++
        " | BODY \x7b\"$serde_json::private::RawValue\":\"1\"\x7d]") =
      .ok { method := .get, url := "https://a.com/x", body := .integer 1 } := rfl
  have same := Except.ok.inj (embedded.symm.trans read)
  rw [← same] at kept
  cases kept

end RequestLine
