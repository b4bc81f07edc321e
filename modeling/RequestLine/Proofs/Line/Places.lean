import RequestLine.Proofs.Line.Grammar
import RequestLine.Proofs.Text.Bytes

/-!
The reading of a line by places: the bars by the places of their bytes, the first two parts by their
places among the parts.  It has a result for every line, and the same one.
-/

namespace RequestLine

open Text

/-- A computation that looks things up by their places.  It has no result at all, not even an error, if
a place is asked for that is not there. -/
abbrev ByPlace := ExceptT RequestError Option

namespace ByPlace

variable {α : Type}

def get (entries : List α) (place : Nat) : ByPlace α :=
  ExceptT.lift entries[place]?

def drop (entries : List α) (place : Nat) : ByPlace (List α) :=
  ExceptT.lift (if place ≤ entries.length then some (entries.drop place) else none)

def ofExcept (result : Except RequestError α) : ByPlace α :=
  ExceptT.mk (some result)

end ByPlace

namespace Sections

def ofPartsByPlace (pieces : List (List Char)) : ByPlace (List Section) := do
  if pieces.length < 2 then
    throw .tooFewSections
  else if !"HTTP ".toList.isPrefixOf (trim (← ByPlace.get pieces 0)) then
    throw .methodNotFirst
  else if !"URL ".toList.isPrefixOf (trim (← ByPlace.get pieces 1)) then
    throw .urlNotSecond
  else
    ByPlace.ofExcept (pieces.mapM Section.ofPart)

def ofInteriorByPlace (interior : List Char) : ByPlace (List Section) := do
  if interior.isEmpty then
    throw .emptyContent
  else if !(← ExceptT.lift (bytesSpaced? (utf8Bytes interior))) then
    throw .barSpacing
  else
    ofPartsByPlace (parts interior)

def ofLineByPlace (line : String) : ByPlace (List Section) :=
  if line.isEmpty then
    throw .missingInput
  else
    match interior? line.toList with
    | none => throw .malformedBrackets
    | some interior => ofInteriorByPlace interior

theorem run_ofPartsByPlace (pieces : List (List Char)) :
    (ofPartsByPlace pieces).run = some ((ofParts pieces).map toList) := by
  match pieces with
  | [] => rfl
  | [_] => rfl
  | first :: second :: others =>
      have firstFound : ByPlace.get (first :: second :: others) 0 = pure first := rfl
      have secondFound : ByPlace.get (first :: second :: others) 1 = pure second := rfl
      have enough : ¬ (first :: second :: others).length < 2 := by simp
      rw [map_toList_ofParts]
      simp only [ofPartsByPlace, if_neg enough, firstFound, secondFound, pure_bind]
      split
      · rfl
      · split <;> rfl

theorem run_ofInteriorByPlace (interior : List Char) :
    (ofInteriorByPlace interior).run = some ((ofInterior interior).map toList) := by
  unfold ofInteriorByPlace ofInterior
  split
  · rfl
  · rw [bytesSpaced?_utf8Bytes]
    cases barsSpaced interior with
    | false => rfl
    | true => exact run_ofPartsByPlace (parts interior)

theorem run_ofLineByPlace (line : String) :
    (ofLineByPlace line).run = some ((ofLine line).map toList) := by
  unfold ofLineByPlace ofLine
  split
  · rfl
  · cases interior? line.toList with
    | none => rfl
    | some interior => exact run_ofInteriorByPlace interior

end Sections
end RequestLine
