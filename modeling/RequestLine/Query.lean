import RequestLine.Json.Basic
import RequestLine.Number.Layout
import RequestLine.Text.Percent

/-!
The query of a URL, made from the members of an object: a pair for each member, its key as it is
and the text of its value percent-encoded.
-/

namespace RequestLine

/-- Numbers are plain from six places after the point to twenty-one before it, and a whole number
has no point. -/
def queryLayout : Layout where
  plainFrom := -6
  plainBelow := 21
  wholeEnding := ""
  tie := .upper

mutual

/-- The text of a value in a query.  An array is its items with commas between them, whatever
stands in the items; an object does not show its members. -/
def Json.queryText : Json → List Char
  | .null => ['n', 'u', 'l', 'l']
  | .bool true => ['t', 'r', 'u', 'e']
  | .bool false => ['f', 'a', 'l', 's', 'e']
  | .integer value => integerText value
  | .real value => queryLayout.write value
  | .string text => text.toList
  | .array items => [','].intercalate (Json.itemTexts items)
  | .object _ => "[object Object]".toList

/-- The texts of the items of an array, in which null is empty. -/
def Json.itemTexts : List Json → List (List Char)
  | [] => []
  | .null :: rest => [] :: Json.itemTexts rest
  | item :: rest => item.queryText :: Json.itemTexts rest

end

def pairText (pair : String × Json) : List Char :=
  pair.1.toList ++ '=' :: Text.percentEncode pair.2.queryText

def encodeQuery (query : Members) : String :=
  .ofList (['&'].intercalate (query.map pairText))

/-- Begins the query of a URL that has none, and goes on with the query of one that has. -/
def appendQuery (url : String) (query : Members) : String :=
  if query.isEmpty then
    url
  else
    let sign := if url.toList.contains '?' then "&" else "?"
    url ++ sign ++ encodeQuery query

end RequestLine
