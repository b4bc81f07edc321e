import RequestLine.Number.Binary64

/-! JSON values.  An object is the list of its members, in the order in which they were given. -/

namespace RequestLine

inductive Json where
  | null
  | bool (value : Bool)
  | integer (value : Int)
  | real (value : Binary64)
  | string (text : String)
  | array (items : List Json)
  | object (members : List (String × Json))

instance : Inhabited Json := ⟨.null⟩

/-- The members of an object.  A reader brings no key twice. -/
abbrev Members := List (String × Json)

namespace Members

/-- A new key goes to the end; a known one keeps its place and takes the new value. -/
def set : Members → String → Json → Members
  | [], key, value => [(key, value)]
  | (known, old) :: rest, key, value =>
      if known = key then (key, value) :: rest else (known, old) :: set rest key value

/-- Each key at its first place and with its last value. -/
def ofPairs (pairs : List (String × Json)) : Members :=
  pairs.foldl (fun members (key, value) => members.set key value) []

end Members

/-- The member of that key; a value that is no object has none. -/
def Json.member? (key : String) : Json → Option Json
  | .object members => members.lookup key
  | _ => none

mutual

/-- How many arrays and objects stand inside each other. -/
def Json.depth : Json → Nat
  | .array items => Json.depthOfItems items + 1
  | .object members => Json.depthOfMembers members + 1
  | _ => 0

def Json.depthOfItems : List Json → Nat
  | [] => 0
  | item :: rest => max item.depth (Json.depthOfItems rest)

def Json.depthOfMembers : List (String × Json) → Nat
  | [] => 0
  | (_, value) :: rest => max value.depth (Json.depthOfMembers rest)

end

end RequestLine
