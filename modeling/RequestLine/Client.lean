import RequestLine.Exchange
import RequestLine.Json.Reader
import RequestLine.Json.Writer

/-!
How a client sends a call: what it makes of the values in the call, and what it takes from the answer.
The agent that carries messages over a network is left open.
-/

namespace RequestLine.Client

/-- Strings go into a header as they are, other values as their JSON text. -/
def headerText : Json → String
  | .string text => text
  | value => value.toText

/-- An answer that is JSON text is its value, any other is a string. -/
def responseData (text : String) : Json :=
  (Json.ofString? text).getD (.string text)

/-- A message to the other side.  Its content has a media type and a text. -/
structure Message where
  method : Method
  url : String
  headers : List (String × String)
  content : Option (String × String)

/-- What an agent has of the other side. -/
inductive Answer where
  /-- An answer and its text. -/
  | whole (status : Nat) (text : String)
  /-- The beginning of an answer whose text could not be read. -/
  | broken (status : Nat) (message : String)
  /-- No answer, nor need the message have been sent. -/
  | none (message : String)

/-- Only a call that posts has its data as content. -/
def messageOf (call : Call) : Message where
  method := call.method
  url := call.url
  headers := call.headers.map fun header => (header.1, headerText header.2)
  content := match call.method with
    | .get => .none
    | .post => some ("application/json", call.data.toText)

def outcomeOf : Answer → Outcome
  | .whole status text => .answered status (responseData text)
  | .broken status message => .failed message (some status)
  | .none message => .failed message .none

/-- What comes of sending a call through an agent. -/
def send (agent : Message → Answer) (call : Call) : Outcome :=
  outcomeOf (agent (messageOf call))

end RequestLine.Client
