import RequestLine.Proofs.Line.Grammar
import RequestLine.Proofs.Line.Places

/-!
The errors of a badly built line, told from the characters between its brackets.  Of the rules that
are broken the first counts: the bars', then the number of parts, then the order of the first two, then
the rules of the single parts, part by part.
-/

namespace RequestLine

open Text

def BarsSpaced (interior : List Char) : Prop :=
  ∀ before after, interior = before ++ '|' :: after → BarSpaced before after

/-- The parts of an interior whose bars are spaced.  Only the first character of a part can be a bar:
its space is the one that ends the separator before it. -/
structure PartsOf (interior : List Char) (pieces : List (List Char)) : Prop where
  nonempty : pieces ≠ []
  joined : interior = joinParts pieces
  leading_bars : ∀ piece ∈ pieces, '|' ∉ piece.tail

def MethodFirst (interior : List Char) : Prop :=
  "HTTP ".toList <+: trim (interior.takeWhile (· != '|'))

inductive PartFault (part : List Char) : RequestError → Prop where
  | multipleSpaces (double : [' ', ' '] <:+: part) : PartFault part .multipleSpaces
  | missingSpace (single : ¬ [' ', ' '] <:+: part) (absent : ' ' ∉ trim part) :
      PartFault part .missingSpace

/-- The first rule that an interior breaks.  Every constructor but the first keeps that the rules
before its own are met. -/
inductive FirstFault (interior : List Char) : RequestError → Prop where
  | barSpacing (unspaced : ¬ BarsSpaced interior) : FirstFault interior .barSpacing
  | tooFewSections (spaced : BarsSpaced interior) (single : '|' ∉ interior) :
      FirstFault interior .tooFewSections
  | methodNotFirst (spaced : BarsSpaced interior) (bar : '|' ∈ interior)
      (other : ¬ MethodFirst interior) : FirstFault interior .methodNotFirst
  | urlNotSecond {first second : List Char} {others : List (List Char)}
      (spaced : BarsSpaced interior) (method : MethodFirst interior)
      (cut : PartsOf interior (first :: second :: others))
      (other : ¬ "URL ".toList <+: trim second) : FirstFault interior .urlNotSecond
  | part {first second part : List Char} {others front back : List (List Char)}
      {cause : RequestError} (spaced : BarsSpaced interior) (method : MethodFirst interior)
      (cut : PartsOf interior (first :: second :: others)) (url : "URL ".toList <+: trim second)
      (place : first :: second :: others = front ++ part :: back)
      (readable : ∀ earlier ∈ front, ∀ cause, ¬ PartFault earlier cause)
      (fault : PartFault part cause) : FirstFault interior cause

/-! ### The parts of a spaced interior -/

theorem PartsOf.parts_eq {interior : List Char} {pieces : List (List Char)}
    (cut : PartsOf interior pieces) : parts interior = pieces := by
  rw [cut.joined]
  exact parts_joinParts cut.nonempty cut.leading_bars

section Spaced

variable {interior : List Char} (spaced : BarsSpaced interior)
include spaced

theorem partsOf_parts : PartsOf interior (parts interior) := by
  refine ⟨parts_ne_nil interior, (joinParts_parts interior).symm, ?_⟩
  intro piece member
  apply bar_not_mem_tail ?_ member
  intro before after cut
  have bar := spaced before after cut
  exact ⟨fun _ => bar.space_before, bar.space_after⟩

/-- The first part is what stands before the first bar, but for a blank at its end. -/
theorem partsOf_of_bar (bar : '|' ∈ interior) :
    ∃ first second others, PartsOf interior (first :: second :: others) ∧
      trim first = trim (interior.takeWhile (· != '|')) := by
  obtain ⟨before, after, cut, plain⟩ := List.eq_append_cons_of_mem bar
  have here := spaced before after cut
  obtain ⟨first, rfl⟩ := List.getLast?_eq_some_iff.mp here.space_before
  obtain ⟨rest, rfl⟩ := List.head?_eq_some_iff.mp here.space_after
  obtain ⟨second, others, later⟩ := List.exists_cons_of_ne_nil (parts_ne_nil rest)
  have single : '|' ∉ first.tail := by
    intro member
    exact plain (List.mem_append_left _ (List.mem_of_mem_tail member))
  have shape : parts interior = first :: second :: others := by
    have joined : interior = first ++ separator ++ rest := by simp [cut, separator]
    rw [joined, parts_append_separator single, later]
  have before : interior.takeWhile (· != '|') = first ++ [' '] := by
    rw [cut, takeWhile_before_sign plain]
  have padded : trim ([] ++ first ++ [' ']) = trim first :=
    trim_padded (by simp) (List.forall_mem_singleton.mpr rfl) first
  refine ⟨first, second, others, shape ▸ partsOf_parts spaced, ?_⟩
  rw [before]
  exact padded.symm

theorem PartsOf.methodFirst_iff {first second : List Char} {others : List (List Char)}
    (cut : PartsOf interior (first :: second :: others)) :
    MethodFirst interior ↔ "HTTP ".toList <+: trim first := by
  have bar : '|' ∈ interior := by simp [cut.joined, joinParts_cons_cons, separator]
  obtain ⟨start, next, rest, other, same⟩ := partsOf_of_bar spaced bar
  obtain ⟨rfl, _⟩ := List.cons.inj (cut.parts_eq.symm.trans other.parts_eq)
  rw [MethodFirst, same]

end Spaced

/-! ### The errors of the reading -/

theorem Section.ofPart_eq_error_iff {part : List Char} {cause : RequestError} :
    Section.ofPart part = .error cause ↔ PartFault part cause := by
  unfold Section.ofPart
  by_cases double : hasDoubleSpace part = true
  · have found := (hasDoubleSpace_iff part).mp double
    rw [if_pos double]
    apply Iff.intro
    · intro failed
      cases failed
      exact .multipleSpaces found
    · intro fault
      cases fault with
      | multipleSpaces => rfl
      | missingSpace single => contradiction
  · have single : ¬ [' ', ' '] <:+: part := fun found => double ((hasDoubleSpace_iff part).mpr found)
    rw [if_neg double]
    cases split : splitKeyword? (trim part) with
    | none =>
        apply Iff.intro
        · intro failed
          cases failed
          exact .missingSpace single (splitKeyword?_eq_none_iff.mp split)
        · intro fault
          cases fault with
          | multipleSpaces => contradiction
          | missingSpace => rfl
    | some pair =>
        apply Iff.intro
        · intro failed
          cases failed
        · intro fault
          cases fault with
          | multipleSpaces => contradiction
          | missingSpace _ absent =>
              rw [splitKeyword?_eq_none_iff.mpr absent] at split
              contradiction

theorem Section.exists_ofPart_iff {part : List Char} :
    (∃ entry, Section.ofPart part = .ok entry) ↔ ∀ cause, ¬ PartFault part cause := by
  simp only [← Section.ofPart_eq_error_iff]
  cases Section.ofPart part <;> simp

theorem Sections.ofInterior_of_spaced {interior : List Char} (nonempty : interior ≠ [])
    (spaced : BarsSpaced interior) :
    Sections.ofInterior interior = Sections.ofParts (parts interior) := by
  have filled : interior.isEmpty = false := by simpa using nonempty
  rw [Sections.ofInterior, filled, (barsSpaced_iff interior).mpr spaced]
  rfl

theorem Sections.ofInterior_of_unspaced {interior : List Char} (unspaced : ¬ BarsSpaced interior) :
    Sections.ofInterior interior = .error .barSpacing := by
  have filled : interior.isEmpty = false := by
    rw [Bool.eq_false_iff]
    intro empty
    obtain rfl := List.isEmpty_iff.mp empty
    exact unspaced (by simp [BarsSpaced])
  have check : barsSpaced interior = false :=
    Bool.eq_false_iff.mpr ((barsSpaced_iff interior).not.mpr unspaced)
  rw [Sections.ofInterior, filled, check]
  rfl

theorem Sections.ofParts_eq_error_iff {first second : List Char} {others : List (List Char)}
    {cause : RequestError} (method : "HTTP ".toList <+: trim first)
    (url : "URL ".toList <+: trim second) :
    Sections.ofParts (first :: second :: others) = .error cause ↔
      ∃ front part back, first :: second :: others = front ++ part :: back ∧
        (∀ earlier ∈ front, ∀ cause, ¬ PartFault earlier cause) ∧ PartFault part cause := by
  rw [← map_eq_error_iff, Sections.ofParts_of_ordered method url, mapM_eq_error_iff]
  simp only [Section.exists_ofPart_iff, Section.ofPart_eq_error_iff]

theorem FirstFault.ofInterior {interior : List Char} {cause : RequestError}
    (nonempty : interior ≠ []) (fault : FirstFault interior cause) :
    Sections.ofInterior interior = .error cause := by
  cases fault with
  | barSpacing unspaced => exact Sections.ofInterior_of_unspaced unspaced
  | tooFewSections spaced single =>
      have whole : '|' ∉ interior.tail := fun member => single (List.mem_of_mem_tail member)
      rw [Sections.ofInterior_of_spaced nonempty spaced, parts_eq_singleton whole]
      rfl
  | methodNotFirst spaced bar other =>
      obtain ⟨first, second, others, cut, _⟩ := partsOf_of_bar spaced bar
      rw [Sections.ofInterior_of_spaced nonempty spaced, cut.parts_eq]
      exact Sections.ofParts_of_method ((cut.methodFirst_iff spaced).not.mp other)
  | urlNotSecond spaced method cut other =>
      rw [Sections.ofInterior_of_spaced nonempty spaced, cut.parts_eq]
      exact Sections.ofParts_of_url ((cut.methodFirst_iff spaced).mp method) other
  | part spaced method cut url place readable fault =>
      rw [Sections.ofInterior_of_spaced nonempty spaced, cut.parts_eq,
        Sections.ofParts_eq_error_iff ((cut.methodFirst_iff spaced).mp method) url]
      exact ⟨_, _, _, place, readable, fault⟩

theorem firstFault_of_ofInterior {interior : List Char} {cause : RequestError}
    (nonempty : interior ≠ []) (failed : Sections.ofInterior interior = .error cause) :
    FirstFault interior cause := by
  by_cases spaced : BarsSpaced interior
  · rw [Sections.ofInterior_of_spaced nonempty spaced] at failed
    by_cases bar : '|' ∈ interior
    · obtain ⟨first, second, others, cut, _⟩ := partsOf_of_bar spaced bar
      have same := cut.methodFirst_iff spaced
      rw [cut.parts_eq] at failed
      by_cases method : MethodFirst interior
      · by_cases url : "URL ".toList <+: trim second
        · obtain ⟨front, part, back, place, readable, fault⟩ :=
            (Sections.ofParts_eq_error_iff (same.mp method) url).mp failed
          exact .part spaced method cut url place readable fault
        · cases (Sections.ofParts_of_url (same.mp method) url).symm.trans failed
          exact .urlNotSecond spaced method cut url
      · cases (Sections.ofParts_of_method (same.not.mp method)).symm.trans failed
        exact .methodNotFirst spaced bar method
    · have whole : '|' ∉ interior.tail := fun member => bar (List.mem_of_mem_tail member)
      rw [parts_eq_singleton whole] at failed
      cases failed
      exact .tooFewSections spaced bar
  · cases (Sections.ofInterior_of_unspaced spaced).symm.trans failed
    exact .barSpacing spaced

/-- A bracketed line that is not blank inside is refused with the error of the first rule it breaks,
whether its bars are looked for among the characters or among the bytes. -/
theorem ofLine_first_fault {line : String} {content : List Char}
    (bracketed : trim line.toList = '[' :: content ++ [']']) (filled : trim content ≠ [])
    (cause : RequestError) :
    (Sections.ofLine line = .error cause ↔ FirstFault (trim content) cause) ∧
    ((Sections.ofLineByPlace line).run = some (.error cause) ↔ FirstFault (trim content) cause) := by
  have classified : Sections.ofLine line = .error cause ↔ FirstFault (trim content) cause := by
    rw [Sections.ofLine_of_bracketed bracketed]
    exact ⟨firstFault_of_ofInterior filled, FirstFault.ofInterior filled⟩
  refine ⟨classified, ?_⟩
  rw [Sections.run_ofLineByPlace, Option.some.injEq, map_eq_error_iff]
  exact classified

theorem ofLine_first_fault_shared_space :
    trim "[HTTP GET | URL é | | x  y | z]".toList =
      '[' :: "HTTP GET | URL é | | x  y | z".toList ++ [']'] ∧
    trim "HTTP GET | URL é | | x  y | z".toList ≠ [] ∧
    Sections.ofLine "[HTTP GET | URL é | | x  y | z]" = .error .multipleSpaces ∧
    (Sections.ofLineByPlace "[HTTP GET | URL é | | x  y | z]").run =
      some (.error .multipleSpaces) ∧
    FirstFault "HTTP GET | URL é | | x  y | z".toList .multipleSpaces := by
  have bracketed : trim "[HTTP GET | URL é | | x  y | z]".toList =
      '[' :: "HTTP GET | URL é | | x  y | z".toList ++ [']'] := by decide
  have filled : trim "HTTP GET | URL é | | x  y | z".toList ≠ [] := by decide
  have refused : Sections.ofLine "[HTTP GET | URL é | | x  y | z]" = .error .multipleSpaces := rfl
  have classified := ofLine_first_fault bracketed filled .multipleSpaces
  have fault := classified.1.mp refused
  exact ⟨bracketed, filled, refused, classified.2.mpr fault, fault⟩

end RequestLine
