import RequestLine.Json.Reader
import RequestLine.Json.Writer
import RequestLine.Method
import RequestLine.Query

/-!
Requests, and the line that describes one.  `Request.ofLine` reads a line, `Request.toLine`
writes the line of a request.
-/

namespace RequestLine

structure Request where
  method : Method
  url : String
  headers : Members := []
  query : Members := []
  body : Json := .object []
  /-- The URL with the query; without one it is the URL itself. -/
  fullUrl : String := url

/-- What the sections after the URL's have brought so far. -/
structure Payload where
  headers : Option Members := none
  query : Option Members := none
  body : Option Json := none

/-- The kinds of sections after the URL's. -/
inductive Slot where
  | headers
  | query
  | body
deriving DecidableEq, Repr

namespace Slot

def keyword : Slot → String
  | headers => "HEADERS"
  | query => "QUERY"
  | body => "BODY"

def ofKeyword? (keyword : String) : Option Slot :=
  if keyword = "HEADERS" then some headers
  else if keyword = "QUERY" then some query
  else if keyword = "BODY" then some body
  else none

@[simp] theorem ofKeyword?_keyword (slot : Slot) : ofKeyword? slot.keyword = some slot := by
  cases slot <;> rfl

end Slot

namespace Payload

def has (payload : Payload) : Slot → Bool
  | .headers => payload.headers.isSome
  | .query => payload.query.isSome
  | .body => payload.body.isSome

def decodeValue (slot : Slot) (text : List Char) : Except RequestError Json :=
  match Json.ofText? text with
  | some value => .ok value
  | none => .error (.invalidJson slot.keyword)

def decodeMembers (slot : Slot) (notObject : RequestError) (text : List Char) :
    Except RequestError Members := do
  match ← decodeValue slot text with
  | .object members => .ok members
  | _ => .error notObject

/-- The payload with one more section, whose value is `text` without the blanks around it. -/
def fill (payload : Payload) (slot : Slot) (text : List Char) : Except RequestError Payload :=
  match slot with
  | .headers =>
      if text.isEmpty then .error .emptyHeaders
      else return { payload with headers := ← decodeMembers slot .headersNotObject text }
  | .query =>
      if text.isEmpty then .error .emptyQuery
      else return { payload with query := ← decodeMembers slot .queryNotObject text }
  | .body =>
      if text.isEmpty then .error .emptyBody
      else return { payload with body := ← decodeValue slot text }

/-- A keyword that comes again is an error before its value is looked at. -/
def add (payload : Payload) (entry : Section) : Except RequestError Payload :=
  if !Text.isUpperCase entry.keyword.toList then
    .error .keywordNotUpperCase
  else
    match Slot.ofKeyword? entry.keyword with
    | none => .error .unknownKeyword
    | some slot =>
        if payload.has slot then .error .duplicateSection
        else payload.fill slot (Text.trim entry.value.toList)

/-- The sections in any order, up to the first that is wrong. -/
def ofSections (entries : List Section) : Except RequestError Payload :=
  entries.foldlM add {}

end Payload

def hasScheme (text : List Char) : Bool :=
  "http://".toList.isPrefixOf text || "https://".toList.isPrefixOf text

/-- A URL is known by its scheme, with something after it; the rest is not looked into but for
spaces. -/
def urlOfSection (entry : Section) : Except RequestError String :=
  let text := Text.trim entry.value.toList
  let url := String.ofList text
  if entry.keyword ≠ "URL" then .error .missingUrlKeyword
  else if text.isEmpty then .error .emptyUrl
  else if text.contains ' ' then .error .urlExtraContent
  else if !hasScheme text || url.utf8ByteSize ≤ 8 then .error .invalidUrl
  else .ok url

namespace Request

/-- A section that is left out leaves the request's default. -/
def withPayload (request : Request) (payload : Payload) : Request :=
  { request with
    headers := payload.headers.getD request.headers
    query := payload.query.getD request.query
    body := payload.body.getD request.body }

/-- The request with the full URL that its URL and its query make. -/
def withFullUrl (request : Request) : Request :=
  { request with fullUrl := appendQuery request.url request.query }

def ofSections (sections : Sections) : Except RequestError Request := do
  let method ← Method.ofSection sections.http
  let url ← urlOfSection sections.url
  let payload ← Payload.ofSections sections.trailing
  return ({ method, url : Request }.withPayload payload).withFullUrl

/-- The request that a line describes. -/
def ofLine (line : String) : Except RequestError Request := do
  ofSections (← Sections.ofLine line)

def toJson (request : Request) : Json :=
  .object
    [("method", .string request.method.name),
     ("url", .string request.url),
     ("headers", .object request.headers),
     ("query", .object request.query),
     ("body", request.body),
     ("fullUrl", .string request.fullUrl)]

/-- The sections of a request, all five of them. -/
def toSections (request : Request) : Sections where
  http := ⟨"HTTP", request.method.name⟩
  url := ⟨"URL", request.url⟩
  trailing :=
    [⟨Slot.headers.keyword, .ofList (Json.writeWith Json.lineEscape (.object request.headers))⟩,
     ⟨Slot.query.keyword, .ofList (Json.writeWith Json.lineEscape (.object request.query))⟩,
     ⟨Slot.body.keyword, .ofList (Json.writeWith Json.lineEscape request.body)⟩]

def toLine (request : Request) : String :=
  request.toSections.toLine

end Request
end RequestLine
