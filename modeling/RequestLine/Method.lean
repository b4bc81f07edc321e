import RequestLine.Error
import RequestLine.Section
import RequestLine.Text.Casing

/-! The methods that a request can have. -/

namespace RequestLine

inductive Method where
  | get
  | post
deriving DecidableEq, Repr

namespace Method

def name : Method → String
  | get => "GET"
  | post => "POST"

/-- Only the names themselves are known, in upper case. -/
def ofName (name : String) : Except RequestError Method :=
  if name = "GET" then .ok get
  else if name = "POST" then .ok post
  else .error .unsupportedMethod

def ofSection (entry : Section) : Except RequestError Method :=
  let text := Text.trim entry.value.toList
  if entry.keyword ≠ "HTTP" then .error .missingMethodKeyword
  else if text.isEmpty then .error .emptyMethod
  else if text.contains ' ' then .error .methodExtraContent
  else if !Text.isUpperCase text then .error .methodNotUpperCase
  else ofName (.ofList text)

@[simp] theorem ofName_name (method : Method) : ofName method.name = .ok method := by
  cases method <;> rfl

end Method
end RequestLine
