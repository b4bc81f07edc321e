import RequestLine.Json.Lexeme

/-!
The reading of JSON text.  It is that of the standard with one addition: an object whose first
key is `embeddingKey` embeds another text, and stands for the value of that text.  Arrays and
objects may stand inside each other to a fixed depth, which is counted anew in an embedded text.
-/

namespace RequestLine.Json

/-- Why a text has no value, by the first fault that is met from left to right. -/
inductive Fault where
  /-- The text is not by the rules of JSON, or goes beyond a limit. -/
  | malformed
  /-- What an object embeds is no string, or a string whose text has no value. -/
  | embedding
deriving DecidableEq, Repr

abbrev Reader (α : Type) := List Char → Except Fault (α × List Char)

def ofLexeme {α : Type} (lexeme : Lexeme α) : Reader α := fun text =>
  match lexeme text with
  | some taken => .ok taken
  | none => .error .malformed

/-- Entries with commas between them up to the closing bracket, `limit` of them at most. -/
def entriesWithin {α : Type} (close : Char) (reader : Reader α) : Nat → Reader (List α)
  | 0, _ => .error .malformed
  | limit + 1, text => do
      let (entry, rest) ← reader text
      match skipSpace rest with
      | [] => .error .malformed
      | c :: rest =>
          if c = close then
            return ([entry], rest)
          else if c = ',' then
            let (others, rest) ← entriesWithin close reader limit rest
            return (entry :: others, rest)
          else
            .error .malformed

/-- The entries of an array or object after its opening bracket. -/
def entries {α : Type} (close : Char) (reader : Reader α) : Reader (List α) := fun text =>
  match skipSpace text with
  | [] => .error .malformed
  | c :: rest =>
      if c = close then .ok ([], rest) else entriesWithin close reader text.length (c :: rest)

/-- A key and the colon after it. -/
def key? : Lexeme String := fun text =>
  match skipSpace text with
  | '"' :: rest => do
      let (key, rest) ← string? rest
      match skipSpace rest with
      | ':' :: rest => return (key, rest)
      | _ => none
  | _ => none

def memberWith (value : Reader Json) : Reader (String × Json) := fun text => do
  let (key, rest) ← ofLexeme key? text
  let (value, rest) ← value rest
  return ((key, value), rest)

/-- The first key of an object that embeds a text. -/
def embeddingKey : String := "$serde_json::private::RawValue"

/-- The value of the text in a string, `embedded` being the reader of such texts.  Any other
value is at fault, once it is known to be one; an array or object is known by its bracket. -/
def embeddedValue (embedded : List Char → Except Fault Json) : Reader Json := fun text =>
  match skipSpace text with
  | '"' :: rest => do
      let (content, rest) ← ofLexeme string? rest
      match embedded content.toList with
      | .ok value => return (value, rest)
      | .error _ => .error .embedding
  | '[' :: _ | '{' :: _ => .error .embedding
  | rest => do
      let _ ← ofLexeme scalar? rest
      .error .embedding

/-- The text in the only member of an object, after its key. -/
def embeddingWith (embedded : List Char → Except Fault Json) : Reader Json := fun text => do
  let (value, rest) ← embeddedValue embedded text
  match skipSpace rest with
  | '}' :: rest => return (value, rest)
  | _ => .error .malformed

/-- The members of an object after its opening brace. -/
def membersWith (value : Reader Json) : Reader Json := fun text => do
  let (pairs, rest) ← entries '}' (memberWith value) text
  return (.object (Members.ofPairs pairs), rest)

/-- An object after its opening brace. -/
def objectWith (embedded : List Char → Except Fault Json) (value : Reader Json) : Reader Json :=
  fun text =>
    match key? text with
    | some (key, rest) =>
        if key = embeddingKey then embeddingWith embedded rest else membersWith value text
    | none => membersWith value text

/-- A value in which at most `depth` arrays and objects stand inside each other. -/
def valueWithin (embedded : List Char → Except Fault Json) : Nat → Reader Json
  | 0, text => ofLexeme scalar? (skipSpace text)
  | depth + 1, text =>
      match skipSpace text with
      | '[' :: rest => do
          let (items, rest) ← entries ']' (valueWithin embedded depth) rest
          return (.array items, rest)
      | '{' :: rest => objectWith embedded (valueWithin embedded depth) rest
      | rest => ofLexeme scalar? rest

def depthLimit : Nat := 127

/-- The value of a whole text in which texts are embedded in each other `limit` times at most. -/
def readWithin : Nat → List Char → Except Fault Json
  | 0, _ => .error .malformed
  | limit + 1, text => do
      let (value, rest) ← valueWithin (readWithin limit) depthLimit text
      if skipSpace rest = [] then .ok value else .error .malformed

/-- The value that a JSON text stands for.  An embedded text is shorter than the text around it,
which bounds how many there are. -/
def read (text : List Char) : Except Fault Json :=
  readWithin (text.length + 1) text

def ofText? (text : List Char) : Option Json :=
  (read text).toOption

def ofString? (text : String) : Option Json :=
  ofText? text.toList

end RequestLine.Json
