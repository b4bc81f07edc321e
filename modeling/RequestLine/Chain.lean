import RequestLine.Request

/-! Chains of lines, each about the URL that the accepted ones before it have made. -/

namespace RequestLine.Chain

/-- The line of one step: a method, a URL and the sections that the step adds, with the bar
before them. -/
def stepLine (method url step : String) : String :=
  "[HTTP " ++ method ++ " | URL " ++ url ++ step ++ "]"

def request (method url step : String) : Except RequestError Request :=
  Request.ofLine (stepLine method url step)

/-- The URL after a step; one that is refused does not change it. -/
def nextUrl (method url step : String) : String :=
  match request method url step with
  | .ok request => request.fullUrl
  | .error _ => url

/-- What each of the steps brings. -/
def run (method url : String) : List String → List (Except RequestError Request)
  | [] => []
  | step :: rest => request method url step :: run method (nextUrl method url step) rest

def finalUrl (method url : String) (steps : List String) : String :=
  steps.foldl (nextUrl method) url

end RequestLine.Chain
