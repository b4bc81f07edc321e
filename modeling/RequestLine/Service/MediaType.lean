/-!
Media types, as far as a service needs them that takes JSON only: `application/json`, and any
`application` type with the suffix `json`, with or without parameters.
-/

namespace RequestLine.MediaType

def isTokenCharacter (c : Char) : Bool :=
  c.isAlphanum ||
    ['!', '#', '$', '%', '&', '\'', '*', '+', '-', '.', '^', '_', '`', '|', '~'].contains c

/-- The token at the front of a text, which may be empty, and what follows it. -/
def token (text : List Char) : List Char × List Char :=
  (text.takeWhile isTokenCharacter, text.dropWhile isTokenCharacter)

def dropSpaces (text : List Char) : List Char :=
  text.dropWhile (· == ' ')

/-- What follows a quoted value after its opening quote.  The first character belongs to the
value whatever it is; after the closing quote there are only spaces up to the next semicolon. -/
def afterQuoted? : List Char → Option (List Char)
  | [] => none
  | _ :: rest =>
      match rest.dropWhile (· != '"') with
      | [] => none
      | _ :: rest =>
          match dropSpaces rest with
          | [] => some []
          | ';' :: rest => some rest
          | _ => none

/-- What follows the value of a parameter.  Only at the end can it be empty. -/
def afterValue? : List Char → Option (List Char)
  | [] => some []
  | '"' :: rest => afterQuoted? rest
  | text =>
      match token text with
      | (_ :: _, []) => some []
      | (_ :: _, ';' :: rest) => some rest
      | _ => none

/-- Whether `text` is a list of parameters, `limit` of them at most.  It may end in a semicolon
and spaces. -/
def parametersWithin : Nat → List Char → Bool
  | 0, text => (dropSpaces text).isEmpty
  | limit + 1, text =>
      match dropSpaces text with
      | [] => true
      | text =>
          match token text with
          | (_ :: _, '=' :: rest) =>
              match afterValue? rest with
              | some rest => parametersWithin limit rest
              | none => false
          | _ => false

/-- The subtype is cut at its last plus sign, the first character apart. -/
def cutSuffix (subtype : List Char) : List Char × Option (List Char) :=
  let reversed := (subtype.drop 1).reverse
  let suffix := (reversed.takeWhile (· != '+')).reverse
  match reversed.dropWhile (· != '+') with
  | [] => (subtype, none)
  | _ :: before => (subtype.take 1 ++ before.reverse, some suffix)

/-- Letters count without their case. -/
def isJsonType (type subtype : List Char) : Bool :=
  let json := ['j', 's', 'o', 'n']
  let (name, suffix) := cutSuffix (subtype.map Char.toLower)
  type.map Char.toLower == "application".toList && (name == json || suffix == some json)

/-- Whether the text names a JSON type. -/
def isJson (mediaType : String) : Bool :=
  let text := mediaType.toList
  text.all (fun c => ' ' ≤ c && c ≤ '~') &&
    match token text with
    | (type, '/' :: rest) =>
        let (subtype, rest) := token rest
        isJsonType type subtype &&
          match rest with
          | [] => true
          | ';' :: parameters => parametersWithin parameters.length parameters
          | _ => false
    | _ => false

end RequestLine.MediaType
