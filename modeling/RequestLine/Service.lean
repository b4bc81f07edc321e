import RequestLine.Exchange
import RequestLine.Service.MediaType

/-!
The service: a request that is posted to `/` as JSON brings its line in the member `reqline`; the
line is executed, and the exchange is the reply.
-/

namespace RequestLine

/-- A message to the service.  Its target is a path, or a URL with a path. -/
structure Inbound where
  method : String
  target : String
  contentType : Option String
  body : String

/-- A reply of the service; one that is not JSON is known by its status alone. -/
structure Reply where
  status : Nat
  body : Option Json

namespace Service

/-- The line that a payload brings: a text that is not empty. -/
def lineOf : Option Json → Except RequestError String
  | none | some .null => .error .missingInput
  | some (.string line) => if line.isEmpty then .error .missingInput else .ok line
  | some _ => .error .wrongType

/-- The request of a payload. -/
def requestOf (payload : Json) : Except RequestError Request := do
  Request.ofLine (← lineOf (payload.member? "reqline"))

/-- The characters of a scheme, at its beginning as elsewhere.  A tilde is one of them. -/
def isSchemeCharacter (c : Char) : Bool :=
  c.isAlphanum || ['+', '-', '.', '~'].contains c

/-- What follows the scheme of a URL, which may be empty, and its two slashes. -/
def afterScheme? (target : List Char) : Option (List Char) :=
  match target.dropWhile isSchemeCharacter with
  | ':' :: '/' :: '/' :: rest => some rest
  | _ => none

/-- The signs that begin a query and a fragment. -/
def endsPath (c : Char) : Bool :=
  c == '?' || c == '#'

/-- The path that follows the authority of a URL, if any does. -/
def pathAfterAuthority (text : List Char) : List Char :=
  (text.dropWhile fun c => c != '/' && !endsPath c).takeWhile (!endsPath ·)

/-- The path of a target, without the query and the fragment.  A URL that names none has the path
`/`; a target that is neither a path nor a URL has an empty one. -/
def pathOf (target : List Char) : List Char :=
  match target with
  | '/' :: _ => target.takeWhile (!endsPath ·)
  | _ =>
      match afterScheme? target with
      | none => []
      | some rest =>
          match pathAfterAuthority rest with
          | [] => ['/']
          | path => path

/-- The status of the refusal of a payload that cannot be read. -/
def faultStatus : Json.Fault → Nat
  | .malformed => 400
  | .embedding => 422

/-- How many bytes the body of a message may have. -/
def bodyLimit : Nat := 2097152

/-- The payload of a message that the service takes, or the status of the refusal.  A body that is too
long is not looked into. -/
def payloadOf (inbound : Inbound) : Except Nat Json :=
  if pathOf inbound.target.toList ≠ ['/'] then .error 404
  else if inbound.method ≠ "POST" then .error 405
  else if !inbound.contentType.any MediaType.isJson then .error 415
  else if bodyLimit < inbound.body.utf8ByteSize then .error 413
  else
    match Json.read inbound.body.toList with
    | .error fault => .error (faultStatus fault)
    | .ok payload => .ok payload

def errorBody (error : ExchangeError) : Json :=
  .object
    [("error", .bool true),
     ("kind", .string error.kind),
     ("message", .string error.message)]

/-- A number of three digits is a status; any other is replied as an error of the service. -/
def replyStatus (status : Nat) : Nat :=
  if 100 ≤ status ∧ status ≤ 999 then status else 500

def replyOf : Except ExchangeError Exchange → Reply
  | .ok exchange => ⟨200, exchange.toJson⟩
  | .error error => ⟨replyStatus error.status, errorBody error⟩

/-- The reply to a message.  A call is made only for a line that is accepted. -/
def reply {m : Type → Type} [Monad m] (host : Host m) (inbound : Inbound) : m Reply :=
  match payloadOf inbound with
  | .error status => pure ⟨status, none⟩
  | .ok payload =>
      match requestOf payload with
      | .error cause => pure (replyOf (.error (.refused cause)))
      | .ok request => replyOf <$> request.execute host

end Service
end RequestLine
