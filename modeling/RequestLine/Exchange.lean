import RequestLine.Request

/-!
The execution of a request: one call, through a host that has a clock and can send, and the
packaging of what comes back.
-/

namespace RequestLine

/-- What is sent for a request. -/
structure Call where
  method : Method
  url : String
  data : Json
  headers : Members

/-- What comes of sending a call. -/
inductive Outcome where
  /-- The other side answered. -/
  | answered (status : Nat) (data : Json)
  /-- No answer could be had; a status may have been. -/
  | failed (message : String) (status : Option Nat)
  /-- The sender broke down. -/
  | crashed

/-- What execution needs of its surroundings: the time in milliseconds and a way to send. -/
structure Host (m : Type → Type) where
  now : m Nat
  send : Call → m Outcome

/-- A request that was executed, with its answer. -/
structure Exchange where
  request : Request
  status : Nat
  start : Nat
  stop : Nat
  data : Json

/-- Why there is no exchange. -/
inductive ExchangeError where
  | refused (cause : RequestError)
  | crashed
deriving DecidableEq, Repr

namespace ExchangeError

def kind : ExchangeError → String
  | refused cause => cause.kind
  | crashed => "Internal"

def message : ExchangeError → String
  | refused cause => cause.message
  | crashed => "internal server error"

def status : ExchangeError → Nat
  | refused cause => cause.status
  | crashed => 500

end ExchangeError

def isSuccess (status : Nat) : Bool :=
  200 ≤ status && status < 300

namespace Call

def toJson (call : Call) : Json :=
  .object
    [("method", .string call.method.name),
     ("url", .string call.url),
     ("data", call.data),
     ("headers", .object call.headers)]

end Call

/-- The call goes to the full URL, with the body as its data. -/
def Request.toCall (request : Request) : Call where
  method := request.method
  url := request.fullUrl
  data := request.body
  headers := request.headers

namespace Exchange

/-- A clock that was set back in between gives no negative duration. -/
def duration (exchange : Exchange) : Nat :=
  exchange.stop - exchange.start

def toJson (exchange : Exchange) : Json :=
  .object
    [("request", exchange.request.toJson),
     ("response", .object
       [("httpStatus", .integer exchange.status),
        ("duration", .integer exchange.duration),
        ("requestStartTimestamp", .integer exchange.start),
        ("requestStopTimestamp", .integer exchange.stop),
        ("responseData", exchange.data)])]

/-- Only an answer with a success status makes an exchange. -/
def ofOutcome (request : Request) (start stop : Nat) : Outcome → Except ExchangeError Exchange
  | .answered status data =>
      if isSuccess status then
        .ok { request, status, start, stop, data }
      else
        .error (.refused (.transport status s!"Request failed with status code {status}"))
  | .failed message status =>
      .error (.refused (.transport (status.getD RequestError.defaultFailureStatus) message))
  | .crashed => .error .crashed

end Exchange

/-- Sends the call of a request once, and reads the clock before and after. -/
def Request.execute {m : Type → Type} [Monad m] (host : Host m) (request : Request) :
    m (Except ExchangeError Exchange) := do
  let start ← host.now
  let outcome ← host.send request.toCall
  let stop ← host.now
  return Exchange.ofOutcome request start stop outcome

/-- What a recording host has been asked for. -/
structure Record where
  calls : List Call := []
  readings : Nat := 0

/-- A host that keeps the calls in order, answers each by `respond`, and whose clock shows
`clock n` when it is read for the `n`-th time, counted from zero. -/
def Host.recording (clock : Nat → Nat) (respond : Call → Outcome) : Host (StateM Record) where
  now := modifyGet fun record =>
    (clock record.readings, { record with readings := record.readings + 1 })
  send call := modifyGet fun record =>
    (respond call, { record with calls := record.calls ++ [call] })

end RequestLine
