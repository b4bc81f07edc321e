import RequestLine.Json.Basic
import RequestLine.Number.Layout
import RequestLine.Text.Hex

/-!
The writing of JSON text without spaces between its signs.  The characters of strings go through
an escape, of which there are two: `escape` leaves as it is what may stand in a string, and
`lineEscape` writes spaces and bars by their code as well, so that the text can stand in a line.
-/

namespace RequestLine.Json

/-- Numbers are plain from five places after the point to sixteen before it, with one decimal at
least. -/
def numberLayout : Layout where
  plainFrom := -5
  plainBelow := 16
  wholeEnding := ".0"
  tie := .even

def codeEscape (c : Char) : List Char :=
  ['\\', 'u', '0', '0', Text.lowerHexDigit (c.toNat / 16), Text.lowerHexDigit (c.toNat % 16)]

/-- The quote, the backslash and the controls do not stand for themselves. -/
def escape (c : Char) : List Char :=
  match c with
  | '"' => ['\\', '"']
  | '\\' => ['\\', '\\']
  | '\x08' => ['\\', 'b']
  | '\x0c' => ['\\', 'f']
  | '\n' => ['\\', 'n']
  | '\r' => ['\\', 'r']
  | '\t' => ['\\', 't']
  | c => if c < ' ' then codeEscape c else [c]

def lineEscape (c : Char) : List Char :=
  if c = ' ' ∨ c = '|' then codeEscape c else escape c

def writeString (escape : Char → List Char) (text : String) : List Char :=
  '"' :: text.toList.flatMap escape ++ ['"']

mutual

def writeWith (escape : Char → List Char) : Json → List Char
  | .null => ['n', 'u', 'l', 'l']
  | .bool true => ['t', 'r', 'u', 'e']
  | .bool false => ['f', 'a', 'l', 's', 'e']
  | .integer value => integerText value
  | .real value => numberLayout.write value
  | .string text => writeString escape text
  | .array items => '[' :: [','].intercalate (writeItems escape items) ++ [']']
  | .object members => '{' :: [','].intercalate (writeMembers escape members) ++ ['}']

def writeItems (escape : Char → List Char) : List Json → List (List Char)
  | [] => []
  | item :: rest => writeWith escape item :: writeItems escape rest

def writeMembers (escape : Char → List Char) : List (String × Json) → List (List Char)
  | [] => []
  | (key, value) :: rest =>
      (writeString escape key ++ ':' :: writeWith escape value) :: writeMembers escape rest

end

/-- The shortest text of a value. -/
def write (value : Json) : List Char :=
  writeWith escape value

def toText (value : Json) : String :=
  .ofList value.write

end RequestLine.Json
