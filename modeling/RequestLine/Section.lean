import RequestLine.Error
import RequestLine.Text.Blank
import RequestLine.Text.Parts

/-!
The structure of a line.  `Sections.ofLine` checks it in a fixed order and names the first rule
that is broken; `Sections.toLine` writes the line that has given sections.
-/

namespace RequestLine

/-- A keyword and the value after it. -/
structure Section where
  keyword : String
  value : String
deriving DecidableEq, Repr

/-- The sections of a line in their order, the method's first and the URL's second. -/
structure Sections where
  http : Section
  url : Section
  trailing : List Section
deriving DecidableEq, Repr

/-- Two spaces side by side are looked for in the whole part, the keyword's space in the part
without the blanks at its ends. -/
def Section.ofPart (part : List Char) : Except RequestError Section :=
  if Text.hasDoubleSpace part then
    .error .multipleSpaces
  else
    match Text.splitKeyword? (Text.trim part) with
    | none => .error .missingSpace
    | some (keyword, value) => .ok ⟨.ofList keyword, .ofList value⟩

def Section.toPart (entry : Section) : List Char :=
  entry.keyword.toList ++ ' ' :: entry.value.toList

/-- What the brackets of a line hold, without the blanks around it. -/
def interior? (line : List Char) : Option (List Char) :=
  match Text.trim line with
  | '[' :: rest =>
      if rest.getLast? = some ']' then some (Text.trim rest.dropLast) else none
  | _ => none

namespace Sections

def toList (sections : Sections) : List Section :=
  sections.http :: sections.url :: sections.trailing

/-- The order of the first two parts is checked before any part is read as a section. -/
def ofParts : List (List Char) → Except RequestError Sections
  | first :: second :: others =>
      if !"HTTP ".toList.isPrefixOf (Text.trim first) then
        .error .methodNotFirst
      else if !"URL ".toList.isPrefixOf (Text.trim second) then
        .error .urlNotSecond
      else do
        let http ← Section.ofPart first
        let url ← Section.ofPart second
        let trailing ← others.mapM Section.ofPart
        return { http, url, trailing }
  | _ => .error .tooFewSections

def ofInterior (interior : List Char) : Except RequestError Sections :=
  if interior.isEmpty then
    .error .emptyContent
  else if !Text.barsSpaced interior then
    .error .barSpacing
  else
    ofParts (Text.parts interior)

/-- The sections of a well-formed line. -/
def ofLine (line : String) : Except RequestError Sections :=
  if line.isEmpty then
    .error .missingInput
  else
    match interior? line.toList with
    | none => .error .malformedBrackets
    | some interior => ofInterior interior

/-- The line with these sections and no blank that could be left out. -/
def toLine (sections : Sections) : String :=
  .ofList ('[' :: Text.joinParts (sections.toList.map Section.toPart) ++ [']'])

end Sections
end RequestLine
