import RequestLine.Proofs.Line.Grammar
import RequestLine.Request

/-!
Blanks around the brackets of a line and right inside them do not matter, whether the line is accepted
or refused: what is read is the interior, and they do not belong to it.
-/

namespace RequestLine

open Text

/-- The text has no other characters than blanks. -/
def AllBlank (text : List Char) : Prop :=
  ∀ c ∈ text, isBlank c = true

instance (text : List Char) : Decidable (AllBlank text) :=
  decidable_of_iff (text.all isBlank = true) List.all_eq_true

section

variable {before after : List Char}

/-- Outside of the brackets, blanks do not even matter to a line that has none. -/
theorem interior?_surrounded (blankBefore : AllBlank before) (blankAfter : AllBlank after)
    (line : List Char) : interior? (before ++ line ++ after) = interior? line := by
  rw [interior?, trim_padded blankBefore blankAfter, interior?]

theorem interior?_bracketed (content : List Char) :
    interior? ('[' :: content ++ [']']) = some (trim content) :=
  interior?_eq_some_iff.mpr ⟨content, (trimmed_enclosed rfl rfl content).trim_eq, rfl⟩

theorem interior?_bracketed_padded (blankBefore : AllBlank before) (blankAfter : AllBlank after)
    (content : List Char) :
    interior? ('[' :: (before ++ content ++ after) ++ [']']) =
      interior? ('[' :: content ++ [']']) := by
  rw [interior?_bracketed, interior?_bracketed, trim_padded blankBefore blankAfter]

end

/-- A line that is not empty is read by its interior alone. -/
theorem Sections.ofLine_eq_of_interior? {line other : String} (some : line ≠ "")
    (someOther : other ≠ "") (same : interior? line.toList = interior? other.toList) :
    Sections.ofLine line = Sections.ofLine other := by
  have nonempty : ¬ line.isEmpty = true := by simpa using some
  have nonemptyOther : ¬ other.isEmpty = true := by simpa using someOther
  rw [Sections.ofLine, Sections.ofLine, if_neg nonempty, if_neg nonemptyOther, same]

/-- Blanks at the four places where they may be left out change neither the request nor the error. -/
theorem ofLine_padded {before opening closing after : String} (blankBefore : AllBlank before.toList)
    (blankOpening : AllBlank opening.toList) (blankClosing : AllBlank closing.toList)
    (blankAfter : AllBlank after.toList) (content : String) :
    Request.ofLine (before ++ "[" ++ opening ++ content ++ closing ++ "]" ++ after) =
      Request.ofLine ("[" ++ content ++ "]") := by
  have padded : (before ++ "[" ++ opening ++ content ++ closing ++ "]" ++ after).toList =
      before.toList ++ ('[' :: (opening.toList ++ content.toList ++ closing.toList) ++ [']']) ++
        after.toList := by
    simp
  have bare : ("[" ++ content ++ "]").toList = '[' :: content.toList ++ [']'] := by
    simp
  have read : Sections.ofLine (before ++ "[" ++ opening ++ content ++ closing ++ "]" ++ after) =
      Sections.ofLine ("[" ++ content ++ "]") := by
    apply Sections.ofLine_eq_of_interior?
    · simp
    · simp
    · rw [padded, bare, interior?_surrounded blankBefore blankAfter,
        interior?_bracketed_padded blankOpening blankClosing]
  rw [Request.ofLine, read, Request.ofLine]

/-- An accepted line that is padded with tabs and spaces of other scripts, and a bar that no padding
separates from the bracket. -/
theorem ofLine_padded_scripts :
    AllBlank "\u3000\t".toList ∧ AllBlank "\u00a0 ".toList ∧ AllBlank "\n\u2003".toList ∧
    AllBlank "\u0085".toList ∧
    (Request.ofLine ("\u3000\t" ++ "[" ++ "\u00a0 " ++ " HTTP GET | URL https://é.com" ++ "\n\u2003" ++
      "]" ++ "\u0085")).map Request.url = .ok "https://é.com" ∧
    (Request.ofLine ("\u3000\t" ++ "[" ++ "\u00a0 " ++ "| HTTP GET" ++ "\n\u2003" ++ "]" ++
      "\u0085")).map Request.url = .error .barSpacing := by
  have before : AllBlank "\u3000\t".toList := by decide
  have opening : AllBlank "\u00a0 ".toList := by decide
  have closing : AllBlank "\n\u2003".toList := by decide
  have after : AllBlank "\u0085".toList := by decide
  refine ⟨before, opening, closing, after, ?_, ?_⟩
  · rw [ofLine_padded before opening closing after]
    rfl
  · rw [ofLine_padded before opening closing after]
    rfl

end RequestLine
