import Mathlib.Data.List.Nodup
import RequestLine.Proofs.Json.Reading
import RequestLine.Proofs.Line.Grammar
import RequestLine.Proofs.Request.Payload

/-!
The building of a request from the sections of a line.  What the sections have to be like is said
without reading them in turn, and so is the request that they describe.
-/

namespace RequestLine

open Text

theorem Method.ofName_eq_ok_iff {name : String} {method : Method} :
    Method.ofName name = .ok method ↔ name = method.name := by
  apply Iff.intro
  · intro known
    unfold Method.ofName at known
    split at known
    · obtain rfl := Except.ok.inj known
      assumption
    · split at known
      · obtain rfl := Except.ok.inj known
        assumption
      · contradiction
  · intro same
    rw [same, Method.ofName_name]

theorem Method.name_injective {method other : Method}
    (same : method.name.toList = other.name.toList) : method = other := by
  have known := Method.ofName_name method
  rw [String.toList_inj.mp same, Method.ofName_name] at known
  exact (Except.ok.inj known).symm

theorem Method.ofSection_eq_ok_iff {entry : Section} {method : Method} :
    Method.ofSection entry = .ok method ↔
      entry.keyword = "HTTP" ∧ trim entry.value.toList = method.name.toList := by
  unfold Method.ofSection
  apply Iff.intro
  · intro accepted
    split at accepted
    · contradiction
    · rename_i keyword
      dsimp only at accepted
      split at accepted
      · contradiction
      · split at accepted
        · contradiction
        · split at accepted
          · contradiction
          · have name := Method.ofName_eq_ok_iff.mp accepted
            rw [← name, String.toList_ofList]
            exact ⟨Classical.not_not.mp keyword, rfl⟩
  · intro named
    obtain ⟨keyword, text⟩ := named
    rw [if_neg (by simpa using keyword), text]
    cases method <;> rfl

/-- What the text of a URL has to be like. -/
structure ValidUrl (text : List Char) : Prop where
  no_space : ' ' ∉ text
  scheme : "http://".toList <+: text ∨ "https://".toList <+: text
  length : 8 < (String.ofList text).utf8ByteSize

theorem hasScheme_iff {text : List Char} :
    hasScheme text = true ↔ "http://".toList <+: text ∨ "https://".toList <+: text := by
  unfold hasScheme
  rw [Bool.or_eq_true, List.isPrefixOf_iff_prefix, List.isPrefixOf_iff_prefix]

theorem ValidUrl.ne_nil {text : List Char} (valid : ValidUrl text) : text ≠ [] := by
  have length := valid.length
  intro empty
  subst empty
  contradiction

theorem urlOfSection_eq_ok_iff {entry : Section} {url : String} :
    urlOfSection entry = .ok url ↔
      entry.keyword = "URL" ∧ trim entry.value.toList = url.toList ∧ ValidUrl url.toList := by
  unfold urlOfSection
  apply Iff.intro
  · intro accepted
    split at accepted
    · contradiction
    · rename_i keyword
      dsimp only at accepted
      split at accepted
      · contradiction
      · split at accepted
        · contradiction
        · rename_i noSpace
          split at accepted
          · contradiction
          · rename_i fit
            obtain rfl := Except.ok.inj accepted
            simp only [Bool.or_eq_true, Bool.not_eq_true', decide_eq_true_eq, not_or,
              Bool.not_eq_false, Nat.not_le] at fit
            rw [String.toList_ofList]
            exact ⟨Classical.not_not.mp keyword, rfl, by simpa using noSpace,
              hasScheme_iff.mp fit.1, fit.2⟩
  · intro described
    obtain ⟨keyword, text, valid⟩ := described
    have noSpace : url.toList.contains ' ' = false := by simpa using valid.no_space
    have some : url.toList.isEmpty = false := by simpa using valid.ne_nil
    have long : ¬ url.utf8ByteSize ≤ 8 := by
      have length := valid.length
      rw [String.ofList_toList] at length
      omega
    rw [if_neg (by simpa using keyword), text, some, noSpace, hasScheme_iff.mpr valid.scheme, String.ofList_toList]
    simp [long]

/-! ### Sections of an accepted line -/

theorem keyword_of_leads (keyword : List Char) {part : List Char} {entry : Section}
    (cut : IsSectionOf part entry) (single : ' ' ∉ keyword)
    (leads : keyword ++ [' '] <+: trim part) : entry.keyword = String.ofList keyword := by
  obtain ⟨rest, shape⟩ := leads
  have asNamed : splitKeyword? (trim part) = some (keyword, rest) :=
    splitKeyword?_eq_some_iff.mpr ⟨by rw [← shape]; simp, single⟩
  have asRead : splitKeyword? (trim part) = some (entry.keyword.toList, entry.value.toList) :=
    splitKeyword?_eq_some_iff.mpr cut
  rw [asNamed] at asRead
  have same : keyword = entry.keyword.toList := congrArg Prod.fst (Option.some.inj asRead)
  rw [same, String.ofList_toList]

theorem keywords_of_line {line : String} {sections : Sections}
    (read : Sections.ofLine line = .ok sections) :
    sections.http.keyword = "HTTP" ∧ sections.url.keyword = "URL" := by
  obtain ⟨pieces, ⟨content, _, interior⟩, related⟩ := Sections.ofLine_eq_ok_iff.mp read
  obtain ⟨first, foundFirst, methodFirst⟩ := interior.method_first
  obtain ⟨second, foundSecond, urlSecond⟩ := interior.url_second
  match pieces, related with
  | [], _ => simp at foundFirst
  | [_], _ => simp at foundSecond
  | piece :: next :: rest, related =>
      obtain rfl : piece = first := by simpa using foundFirst
      obtain rfl : next = second := by simpa using foundSecond
      rw [Sections.toList, List.forall₂_cons, List.forall₂_cons] at related
      exact ⟨keyword_of_leads "HTTP".toList related.1 (by decide) methodFirst,
        keyword_of_leads "URL".toList related.2.1 (by decide) urlSecond⟩

theorem filled_of_line {line : String} {sections : Sections}
    (read : Sections.ofLine line = .ok sections) : ∀ entry ∈ sections.toList, entry.Filled := by
  obtain ⟨pieces, _, related⟩ := Sections.ofLine_eq_ok_iff.mp read
  intro entry member
  obtain ⟨part, _, cut⟩ := exists_related related.flip member
  exact IsSectionOf.filled cut

/-- What the sections of a line have to be like to make a request. -/
structure Acceptable (sections : Sections) : Prop where
  method : trim sections.http.value.toList = "GET".toList ∨
    trim sections.http.value.toList = "POST".toList
  url : ValidUrl (trim sections.url.value.toList)
  distinct : (sections.trailing.map Section.keyword).Nodup
  known : ∀ entry ∈ sections.trailing,
    entry.keyword = "HEADERS" ∨ entry.keyword = "QUERY" ∨ entry.keyword = "BODY"
  decoded : ∀ entry ∈ sections.trailing,
    ∃ value, Json.ofText? (trim entry.value.toList) = some value ∧
      (entry.keyword ≠ "BODY" → ∃ members, value = .object members)

/-- The value of the section with that keyword, or the empty object if there is none. -/
def ValueOf (entries : List Section) (keyword : String) (value : Json) : Prop :=
  (∃ entry ∈ entries, entry.keyword = keyword ∧
    Json.ofText? (trim entry.value.toList) = some value) ∨
  (∀ entry ∈ entries, entry.keyword ≠ keyword) ∧ value = .object []

/-- The request has what the sections hold. -/
structure Describes (sections : Sections) (request : Request) : Prop where
  method : trim sections.http.value.toList = request.method.name.toList
  url : trim sections.url.value.toList = request.url.toList
  headers : ValueOf sections.trailing "HEADERS" (.object request.headers)
  query : ValueOf sections.trailing "QUERY" (.object request.query)
  body : ValueOf sections.trailing "BODY" request.body
  fullUrl : request.fullUrl = appendQuery request.url request.query

theorem Request.ofSections_eq_ok_iff {sections : Sections} {request : Request} :
    Request.ofSections sections = .ok request ↔
      ∃ method url payload, Method.ofSection sections.http = .ok method ∧
        urlOfSection sections.url = .ok url ∧ Payload.OfEntries sections.trailing payload ∧
        request = ({ method, url : Request }.withPayload payload).withFullUrl := by
  unfold Request.ofSections
  simp only [bind_eq_ok_iff, Payload.ofSections_eq_ok_iff]
  apply Iff.intro
  · intro accepted
    obtain ⟨method, readMethod, url, readUrl, payload, held, same⟩ := accepted
    exact ⟨method, url, payload, readMethod, readUrl, held, (Except.ok.inj same).symm⟩
  · intro made
    obtain ⟨method, url, payload, readMethod, readUrl, held, same⟩ := made
    exact ⟨method, readMethod, url, readUrl, payload, held, by rw [same]; rfl⟩

/-- The full URL of a request that was built is the one of its URL and its query. -/
theorem Request.fullUrl_of_ofSections {sections : Sections} {request : Request}
    (built : Request.ofSections sections = .ok request) :
    request.fullUrl = appendQuery request.url request.query := by
  obtain ⟨method, url, payload, _, _, _, rfl⟩ := Request.ofSections_eq_ok_iff.mp built
  rfl

theorem Request.fullUrl_of_ofLine {line : String} {request : Request}
    (read : Request.ofLine line = .ok request) :
    request.fullUrl = appendQuery request.url request.query := by
  rw [Request.ofLine, bind_eq_ok_iff] at read
  obtain ⟨sections, _, built⟩ := read
  exact Request.fullUrl_of_ofSections built

theorem Payload.OfEntries.valueOf {entries : List Section} {payload : Payload}
    (held : Payload.OfEntries entries payload) (slot : Slot) :
    ValueOf entries slot.keyword ((payload.get? slot).getD (.object [])) := by
  cases found : payload.get? slot with
  | some value =>
      obtain ⟨entry, member, keyword, decoded, _⟩ := (held.holds slot value).mp found
      exact .inl ⟨entry, member, keyword, decoded⟩
  | none =>
      refine .inr ⟨?_, rfl⟩
      intro entry member keyword
      obtain ⟨place, value, brings⟩ := held.fit entry member
      obtain rfl := Slot.keyword_injective (brings.1.symm.trans keyword)
      have taken := (held.holds place value).mpr ⟨entry, member, brings⟩
      rw [found] at taken
      contradiction

theorem ValueOf.unique {entries : List Section} {keyword : String} {value other : Json}
    (distinct : (entries.map Section.keyword).Nodup) (is : ValueOf entries keyword value)
    (isOther : ValueOf entries keyword other) : value = other := by
  rcases is with ⟨entry, member, named, decoded⟩ | ⟨absent, rfl⟩
  · rcases isOther with ⟨entryOther, memberOther, namedOther, decodedOther⟩ | ⟨absentOther, _⟩
    · obtain rfl := List.inj_on_of_nodup_map distinct member memberOther
        (named.trans namedOther.symm)
      exact Option.some.inj (decoded.symm.trans decodedOther)
    · exact absurd named (absentOther entry member)
  · rcases isOther with ⟨entryOther, memberOther, namedOther, _⟩ | ⟨_, rfl⟩
    · exact absurd namedOther (absent entryOther memberOther)
    · rfl

/-- The value of a section was read, and the empty object is one that could have been. -/
theorem ValueOf.inherits {holds : Json → Prop} (inherited : Json.Inherited holds)
    {entries : List Section} {keyword : String} {value : Json}
    (held : ValueOf entries keyword value) : holds value := by
  rcases held with ⟨_, _, _, decoded⟩ | ⟨_, rfl⟩
  · exact Json.inherits_of_ofText? inherited decoded
  · have empty : holds (.object (Members.ofPairs [])) := inherited.object (by simp) (by simp)
    exact empty

theorem Describes.inherits {holds : Json → Prop} (inherited : Json.Inherited holds)
    {sections : Sections} {request : Request} (describes : Describes sections request) :
    holds (.object request.headers) ∧ holds (.object request.query) ∧ holds request.body :=
  ⟨describes.headers.inherits inherited, describes.query.inherits inherited,
    describes.body.inherits inherited⟩

/-- A section with a known keyword and a value of the right kind brings that value. -/
theorem Acceptable.brings {sections : Sections} (acceptable : Acceptable sections)
    {entry : Section} (member : entry ∈ sections.trailing) :
    ∃ slot value, entry.Brings slot value := by
  obtain ⟨value, decoded, object⟩ := acceptable.decoded entry member
  rcases acceptable.known entry member with headers | query | body
  · exact ⟨.headers, value, headers, decoded, object (by rw [headers]; decide)⟩
  · exact ⟨.query, value, query, decoded, object (by rw [query]; decide)⟩
  · exact ⟨.body, value, body, decoded, trivial⟩

theorem Acceptable.exists_request {sections : Sections} (acceptable : Acceptable sections)
    (http : sections.http.keyword = "HTTP") (url : sections.url.keyword = "URL") :
    ∃ request, Request.ofSections sections = .ok request := by
  obtain ⟨method, named⟩ :
      ∃ method : Method, trim sections.http.value.toList = method.name.toList := by
    rcases acceptable.method with get | post
    · exact ⟨.get, get⟩
    · exact ⟨.post, post⟩
  obtain ⟨payload, read⟩ := Payload.ofSections_complete acceptable.distinct
    (fun _ member => acceptable.brings member)
  refine ⟨_, Request.ofSections_eq_ok_iff.mpr ⟨method,
    .ofList (trim sections.url.value.toList), payload, ?_, ?_, Payload.ofSections_sound read, rfl⟩⟩
  · exact Method.ofSection_eq_ok_iff.mpr ⟨http, named⟩
  · refine urlOfSection_eq_ok_iff.mpr ⟨url, ?_, ?_⟩ <;> rw [String.toList_ofList]
    exact acceptable.url

theorem Request.ofSections_sound {sections : Sections} {request : Request}
    (built : Request.ofSections sections = .ok request) :
    Acceptable sections ∧ Describes sections request := by
  have fullUrl := Request.fullUrl_of_ofSections built
  obtain ⟨method, url, payload, readMethod, readUrl, held, rfl⟩ :=
    Request.ofSections_eq_ok_iff.mp built
  obtain ⟨_, named⟩ := Method.ofSection_eq_ok_iff.mp readMethod
  obtain ⟨_, address, valid⟩ := urlOfSection_eq_ok_iff.mp readUrl
  refine ⟨⟨?_, ?_, held.distinct, ?_, ?_⟩, ⟨named, address, ?_, ?_, ?_, fullUrl⟩⟩
  · cases method
    · exact .inl named
    · exact .inr named
  · rw [address]
    exact valid
  · intro entry member
    obtain ⟨slot, value, keyword, _⟩ := held.fit entry member
    rw [keyword]
    cases slot <;> decide
  · intro entry member
    obtain ⟨slot, value, keyword, decoded, fit⟩ := held.fit entry member
    refine ⟨value, decoded, ?_⟩
    intro notBody
    cases slot with
    | headers => exact fit
    | query => exact fit
    | body => exact absurd keyword notBody
  · have value := held.valueOf .headers
    cases found : payload.headers <;>
      simpa [Payload.get?, withPayload, withFullUrl, Slot.keyword, found] using value
  · have value := held.valueOf .query
    cases found : payload.query <;>
      simpa [Payload.get?, withPayload, withFullUrl, Slot.keyword, found] using value
  · exact held.valueOf .body

theorem Request.describes_of_ofLine {line : String} {request : Request}
    (read : Request.ofLine line = .ok request) : ∃ sections, Describes sections request := by
  rw [Request.ofLine, bind_eq_ok_iff] at read
  obtain ⟨sections, _, built⟩ := read
  exact ⟨sections, (Request.ofSections_sound built).2⟩

theorem Describes.unique {sections : Sections} {request other : Request}
    (distinct : (sections.trailing.map Section.keyword).Nodup)
    (describes : Describes sections request) (describesOther : Describes sections other) :
    request = other := by
  obtain ⟨method, url, headers, query, body, fullUrl⟩ := request
  obtain ⟨methodOther, urlOther, headersOther, queryOther, bodyOther, fullUrlOther⟩ := other
  obtain rfl : method = methodOther :=
    Method.name_injective (describes.method.symm.trans describesOther.method)
  obtain rfl : url = urlOther :=
    String.toList_inj.mp (describes.url.symm.trans describesOther.url)
  obtain rfl : headers = headersOther :=
    Json.object.inj (ValueOf.unique distinct describes.headers describesOther.headers)
  obtain rfl : query = queryOther :=
    Json.object.inj (ValueOf.unique distinct describes.query describesOther.query)
  obtain rfl : body = bodyOther := ValueOf.unique distinct describes.body describesOther.body
  obtain rfl : fullUrl = fullUrlOther := describes.fullUrl.trans describesOther.fullUrl.symm
  rfl

theorem Request.ofSections_of_describes {sections : Sections} {request : Request}
    (http : sections.http.keyword = "HTTP") (url : sections.url.keyword = "URL")
    (acceptable : Acceptable sections) (describes : Describes sections request) :
    Request.ofSections sections = .ok request := by
  obtain ⟨other, built⟩ := acceptable.exists_request http url
  rw [built, describes.unique acceptable.distinct (Request.ofSections_sound built).2]

/-- The sections of a line make a request exactly if they are acceptable, and they make the request
that they describe. -/
theorem ofSections_eq_ok_iff_describes {line : String} {sections : Sections}
    (read : Sections.ofLine line = .ok sections) :
    ((∃ request, Request.ofSections sections = .ok request) ↔ Acceptable sections) ∧
    ∀ request, Request.ofSections sections = .ok request ↔
      Acceptable sections ∧ Describes sections request := by
  obtain ⟨http, url⟩ := keywords_of_line read
  refine ⟨⟨?_, ?_⟩, ?_⟩
  · intro accepted
    obtain ⟨request, built⟩ := accepted
    exact (Request.ofSections_sound built).1
  · intro acceptable
    exact acceptable.exists_request http url
  · intro request
    apply Iff.intro
    · exact Request.ofSections_sound
    · intro described
      exact Request.ofSections_of_describes http url described.1 described.2

theorem describes_post_line :
    ∃ sections : Sections,
      Sections.ofLine
        "[HTTP POST | URL https://a.com/x | BODY [1, 2] | QUERY \x7b\"k\": \"b c\"\x7d]" =
          .ok sections ∧
      Acceptable sections ∧
      Describes sections
        { method := .post
          url := "https://a.com/x"
          query := [("k", .string "b c")]
          body := .array [.integer 1, .integer 2]
          fullUrl := "https://a.com/x?k=b%20c" } := by
  have read : Sections.ofLine
      "[HTTP POST | URL https://a.com/x | BODY [1, 2] | QUERY \x7b\"k\": \"b c\"\x7d]" =
        .ok ⟨⟨"HTTP", "POST"⟩, ⟨"URL", "https://a.com/x"⟩,
          [⟨"BODY", "[1, 2]"⟩, ⟨"QUERY", "\x7b\"k\": \"b c\"\x7d"⟩]⟩ := rfl
  have fullUrl : appendQuery "https://a.com/x" [("k", .string "b c")] =
      "https://a.com/x?k=b%20c" := by decide
  rw [← fullUrl]
  exact ⟨_, read, ((ofSections_eq_ok_iff_describes read).2 _).mp rfl⟩

end RequestLine
