/-! Why a line is refused, or why its execution brings no result. -/

namespace RequestLine

inductive RequestError where
  /-- No line was given, or an empty one. -/
  | missingInput
  /-- Something other than text was given for the line. -/
  | wrongType
  | malformedBrackets
  | emptyContent
  /-- A bar without exactly one space on each side. -/
  | barSpacing
  | tooFewSections
  | methodNotFirst
  | urlNotSecond
  | emptyMethod
  | emptyUrl
  | multipleSpaces
  | missingSpace
  | missingMethodKeyword
  | missingUrlKeyword
  | methodExtraContent
  | methodNotUpperCase
  | unsupportedMethod
  | urlExtraContent
  | invalidUrl
  | keywordNotUpperCase
  | unknownKeyword
  | duplicateSection
  | emptyHeaders
  | emptyQuery
  | emptyBody
  | headersNotObject
  | queryNotObject
  /-- The value of the section named `keyword` is no JSON text. -/
  | invalidJson (keyword : String)
  /-- The call failed, or its answer had a status that is no success. -/
  | transport (status : Nat) (message : String)
deriving DecidableEq, Repr

namespace RequestError

/-- The wording of an error. -/
def message : RequestError → String
  | missingInput => "reqline input is required"
  | wrongType => "reqline input must be a string"
  | malformedBrackets => "reqline must start with '[' and end with ']'"
  | emptyContent => "reqline content cannot be empty"
  | barSpacing => "pipe delimiter must have exactly one space on each side"
  | tooFewSections => "reqline must contain at least HTTP and URL sections"
  | methodNotFirst => "HTTP section must come first"
  | urlNotSecond => "URL section must come second"
  | emptyMethod => "HTTP method cannot be empty"
  | emptyUrl => "URL cannot be empty"
  | multipleSpaces => "multiple spaces found in section"
  | missingSpace => "missing space after keyword"
  | missingMethodKeyword => "missing HTTP keyword"
  | missingUrlKeyword => "missing URL keyword"
  | methodExtraContent => "HTTP method must not contain extra content"
  | methodNotUpperCase => "HTTP method must be uppercase"
  | unsupportedMethod => "invalid HTTP method, only GET and POST are supported"
  | urlExtraContent => "URL must not contain spaces"
  | invalidUrl => "URL must start with http:// or https://"
  | keywordNotUpperCase => "keywords must be uppercase"
  | unknownKeyword => "unknown keyword, expected HEADERS, QUERY or BODY"
  | duplicateSection => "duplicate section"
  | emptyHeaders => "HEADERS section cannot be empty"
  | emptyQuery => "QUERY section cannot be empty"
  | emptyBody => "BODY section cannot be empty"
  | headersNotObject => "invalid JSON format in HEADERS section, expected an object"
  | queryNotObject => "invalid JSON format in QUERY section, expected an object"
  | invalidJson keyword => s!"invalid JSON format in {keyword} section"
  | transport _ message => message

/-- The name of an error on the wire, which does not depend on its wording. -/
def kind : RequestError → String
  | missingInput => "MissingInput"
  | wrongType => "InvalidType"
  | malformedBrackets => "MalformedBrackets"
  | emptyContent => "EmptyContent"
  | barSpacing => "PipeSpacingError"
  | tooFewSections => "TooFewSections"
  | methodNotFirst => "HttpNotFirst"
  | urlNotSecond => "UrlNotSecond"
  | emptyMethod => "EmptyHttpSection"
  | emptyUrl => "EmptyUrlSection"
  | multipleSpaces => "MultipleSpacesInSection"
  | missingSpace => "MissingSpaceAfterKeyword"
  | missingMethodKeyword => "MissingHttpKeyword"
  | missingUrlKeyword => "MissingUrlKeyword"
  | methodExtraContent => "MethodHasExtraContent"
  | methodNotUpperCase => "MethodNotUppercase"
  | unsupportedMethod => "UnsupportedMethod"
  | urlExtraContent => "UrlHasExtraContent"
  | invalidUrl => "InvalidUrlFormat"
  | keywordNotUpperCase => "KeywordNotUppercase"
  | unknownKeyword => "UnknownKeyword"
  | duplicateSection => "DuplicateSection"
  | emptyHeaders => "EmptyHeadersSection"
  | emptyQuery => "EmptyQuerySection"
  | emptyBody => "EmptyBodySection"
  | headersNotObject => "InvalidHeadersJson"
  | queryNotObject => "InvalidQueryJson"
  | invalidJson _ => "InvalidJsonFormat"
  | transport _ _ => "TransportError"

/-- The status of every error in a line. -/
def badRequest : Nat := 400

/-- The status of a failed call that brought none of its own. -/
def defaultFailureStatus : Nat := 500

def status : RequestError → Nat
  | transport status _ => status
  | _ => badRequest

end RequestError
end RequestLine
