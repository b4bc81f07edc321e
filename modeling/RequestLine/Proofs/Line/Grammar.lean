import Mathlib.Data.Set.Subsingleton
import RequestLine.Proofs.Except
import RequestLine.Proofs.Text.Cutting
import RequestLine.Proofs.Text.Trimming
import RequestLine.Section

/-!
The grammar of a line.  A line decomposes into valid parts in at most one way, and it is accepted
exactly if it does; its sections are then the keywords and values of the parts.
-/

namespace RequestLine

open Text

/-- What may stand between two separators, `position` being its place in the line.  A part after
the URL's may begin with a bar, whose space the separator before it has already used. -/
structure ValidPart (position : Nat) (part : List Char) : Prop where
  head_ne_space : part.head? ≠ some ' '
  last_ne_space : part.getLast? ≠ some ' '
  single_spaces : ¬ [' ', ' '] <:+: part
  leading_bar : ∀ before after, part = before ++ '|' :: after →
    2 ≤ position ∧ before = [] ∧ after.head? = some ' '
  has_space : ' ' ∈ trim part

/-- The keyword of a part is the text before its first space, the value the text after it. -/
def IsSectionOf (part : List Char) (entry : Section) : Prop :=
  trim part = entry.keyword.toList ++ ' ' :: entry.value.toList ∧ ' ' ∉ entry.keyword.toList

/-- The interior of a line, without the blanks around it, is these parts. -/
structure InteriorOf (pieces : List (List Char)) (interior : List Char) : Prop where
  joined : interior = joinParts pieces
  valid : ∀ position part, pieces[position]? = some part → ValidPart position part
  method_first : ∃ part, pieces[0]? = some part ∧ "HTTP ".toList <+: trim part
  url_second : ∃ part, pieces[1]? = some part ∧ "URL ".toList <+: trim part

/-- The line stands in brackets and consists of these parts. -/
def Decomposes (line : String) (pieces : List (List Char)) : Prop :=
  ∃ content, trim line.toList = '[' :: content ++ [']'] ∧ InteriorOf pieces (trim content)

/-! ### The steps of the reading -/

theorem interior?_eq_some_iff {line interior : List Char} :
    interior? line = some interior ↔
      ∃ content, trim line = '[' :: content ++ [']'] ∧ interior = trim content := by
  unfold interior?
  apply Iff.intro
  · intro found
    split at found
    · rename_i rest bracketed
      split at found
      · rename_i closed
        obtain ⟨content, rfl⟩ := List.getLast?_eq_some_iff.mp closed
        refine ⟨content, bracketed, ?_⟩
        simpa using found.symm
      · contradiction
    · contradiction
  · intro described
    obtain ⟨content, bracketed, rfl⟩ := described
    simp [bracketed]

theorem Section.ofPart_eq_ok_iff {part : List Char} {entry : Section} :
    Section.ofPart part = .ok entry ↔ ¬ [' ', ' '] <:+: part ∧ IsSectionOf part entry := by
  unfold Section.ofPart
  by_cases double : hasDoubleSpace part = true
  · simp [double, (hasDoubleSpace_iff part).mp double]
  · have single : ¬ [' ', ' '] <:+: part := fun found => double ((hasDoubleSpace_iff part).mpr found)
    rw [if_neg double]
    apply Iff.intro
    · intro accepted
      cases split : splitKeyword? (trim part) with
      | none => simp [split] at accepted
      | some pair =>
          obtain rfl : ⟨.ofList pair.1, .ofList pair.2⟩ = entry := by simpa [split] using accepted
          refine ⟨single, ?_⟩
          simpa [IsSectionOf] using splitKeyword?_eq_some_iff.mp split
    · intro described
      obtain ⟨_, cut⟩ := described
      rw [splitKeyword?_eq_some_iff.mpr cut]
      simp

/-- With the order of the first two checked, the parts are read one after the other. -/
theorem Sections.map_toList_ofParts (first second : List Char) (others : List (List Char)) :
    (Sections.ofParts (first :: second :: others)).map Sections.toList =
      if !"HTTP ".toList.isPrefixOf (trim first) then .error .methodNotFirst
      else if !"URL ".toList.isPrefixOf (trim second) then .error .urlNotSecond
      else (first :: second :: others).mapM Section.ofPart := by
  rw [Sections.ofParts]
  split
  · rfl
  · split
    · rfl
    · rw [List.mapM_cons, List.mapM_cons]
      cases Section.ofPart first with
      | error cause => rfl
      | ok http =>
          cases Section.ofPart second with
          | error cause => rfl
          | ok url => cases others.mapM Section.ofPart <;> rfl

section Ordered

variable {first second : List Char} {others : List (List Char)}

theorem Sections.ofParts_of_method (other : ¬ "HTTP ".toList <+: trim first) :
    Sections.ofParts (first :: second :: others) = .error .methodNotFirst := by
  rw [Sections.ofParts, Bool.eq_false_iff.mpr (List.isPrefixOf_iff_prefix.not.mpr other)]
  rfl

theorem Sections.ofParts_of_url (method : "HTTP ".toList <+: trim first)
    (other : ¬ "URL ".toList <+: trim second) :
    Sections.ofParts (first :: second :: others) = .error .urlNotSecond := by
  rw [Sections.ofParts, List.isPrefixOf_iff_prefix.mpr method,
    Bool.eq_false_iff.mpr (List.isPrefixOf_iff_prefix.not.mpr other)]
  rfl

theorem Sections.ofParts_of_ordered (method : "HTTP ".toList <+: trim first)
    (url : "URL ".toList <+: trim second) :
    (Sections.ofParts (first :: second :: others)).map Sections.toList =
      (first :: second :: others).mapM Section.ofPart := by
  rw [Sections.map_toList_ofParts, List.isPrefixOf_iff_prefix.mpr method,
    List.isPrefixOf_iff_prefix.mpr url]
  rfl

end Ordered

theorem Sections.map_toList_eq_ok_iff {result : Except RequestError Sections}
    {sections : Sections} :
    result.map Sections.toList = .ok sections.toList ↔ result = .ok sections := by
  cases result with
  | error cause => simp [Except.map]
  | ok other =>
      obtain ⟨http, url, trailing⟩ := other
      obtain ⟨httpOther, urlOther, trailingOther⟩ := sections
      simp [Except.map, Sections.toList]

/-- The order of the first two parts is all that is checked besides the parts themselves. -/
theorem Sections.ofParts_eq_ok_iff {pieces : List (List Char)} {sections : Sections} :
    Sections.ofParts pieces = .ok sections ↔
      (∃ part, pieces[0]? = some part ∧ "HTTP ".toList <+: trim part) ∧
      (∃ part, pieces[1]? = some part ∧ "URL ".toList <+: trim part) ∧
      List.Forall₂ (fun part entry => Section.ofPart part = .ok entry) pieces sections.toList := by
  match pieces with
  | [] => simp [Sections.ofParts]
  | [_] => simp [Sections.ofParts]
  | first :: second :: others =>
      simp only [List.getElem?_cons_zero, List.getElem?_cons_succ, Option.some.injEq,
        exists_eq_left']
      by_cases method : "HTTP ".toList <+: trim first
      · by_cases url : "URL ".toList <+: trim second
        · rw [← Sections.map_toList_eq_ok_iff, Sections.ofParts_of_ordered method url,
            mapM_eq_ok_iff]
          simp only [method, url, true_and]
        · rw [Sections.ofParts_of_url method url]
          simp only [url, false_and, and_false, reduceCtorEq]
      · rw [Sections.ofParts_of_method method]
        simp only [method, false_and, reduceCtorEq]

theorem Sections.ofInterior_eq_ok_iff {interior : List Char} {sections : Sections} :
    Sections.ofInterior interior = .ok sections ↔
      interior ≠ [] ∧ barsSpaced interior = true ∧
        Sections.ofParts (parts interior) = .ok sections := by
  unfold Sections.ofInterior
  cases interior with
  | nil => simp
  | cons c rest => cases spaced : barsSpaced (c :: rest) <;> simp

/-! ### Parts of a spaced interior -/

section Spaced

variable {front back : List (List Char)} {part : List Char}

theorem head_ne_space_of_spaced (trimmed : Trimmed (joinParts (front ++ part :: back)))
    (spaced : barsSpaced (joinParts (front ++ part :: back)) = true) :
    part.head? ≠ some ' ' := by
  rw [joinParts_append_cons] at trimmed spaced
  intro first
  have leads : (part ++ openParts back).head? = some ' ' := by
    rw [List.head?_append, first, Option.some_or]
  by_cases empty : front = []
  · subst empty
    have solid := trimmed.1 ' ' leads
    contradiction
  · obtain ⟨before, closing⟩ := closeParts_of_ne_nil empty
    have bar := (barsSpaced_iff _).mp spaced (before ++ [' ']) (' ' :: (part ++ openParts back))
      (by simp [closing, separator])
    exact bar.single_after leads

theorem last_ne_space_of_spaced (trimmed : Trimmed (joinParts (front ++ part :: back)))
    (spaced : barsSpaced (joinParts (front ++ part :: back)) = true) :
    part.getLast? ≠ some ' ' := by
  rw [joinParts_append_cons, ← List.append_assoc] at trimmed spaced
  intro last
  have ends : (closeParts front ++ part).getLast? = some ' ' := by
    rw [List.getLast?_append, last, Option.some_or]
  cases back with
  | nil =>
      have solid := trimmed.2 ' ' (by simpa [openParts] using ends)
      contradiction
  | cons next back =>
      have bar := (barsSpaced_iff _).mp spaced (closeParts front ++ part ++ [' '])
        (' ' :: (next ++ openParts back)) (by simp [openParts_cons, separator])
      refine bar.single_before ?_
      rw [List.dropLast_concat]
      exact ends

theorem bar_of_spaced {after : List Char}
    (spaced : barsSpaced (joinParts (front ++ ('|' :: after) :: back)) = true) :
    front ≠ [] ∧ (after ++ openParts back).head? = some ' ' := by
  rw [joinParts_append_cons] at spaced
  have bar := (barsSpaced_iff _).mp spaced (closeParts front) (after ++ openParts back) rfl
  refine ⟨?_, bar.space_after⟩
  intro empty
  subst empty
  have spaceBefore := bar.space_before
  contradiction

end Spaced

/-- Only the first character of a part with a space in it can be a bar, and only after the URL's. -/
theorem validPart_of_spaced {interior part : List Char} {position : Nat}
    (trimmed : Trimmed interior) (spaced : barsSpaced interior = true)
    (found : (parts interior)[position]? = some part) (single : ¬ [' ', ' '] <:+: part)
    (space : ' ' ∈ trim part) (late : position = 1 → part.head? ≠ some '|') :
    ValidPart position part := by
  obtain ⟨bound, here⟩ := List.getElem?_eq_some_iff.mp found
  obtain ⟨front, back, length, shape⟩ : ∃ front back, front.length = position ∧
      parts interior = front ++ part :: back := by
    refine ⟨(parts interior).take position, (parts interior).drop (position + 1), ?_, ?_⟩
    · rw [List.length_take]
      omega
    · rw [← here, ← List.drop_eq_getElem_cons bound, List.take_append_drop]
  have joined : joinParts (front ++ part :: back) = interior := by
    rw [← shape, joinParts_parts]
  rw [← joined] at trimmed
  have spacedPieces : barsSpaced (joinParts (front ++ part :: back)) = true := by
    rw [joined]
    exact spaced
  have leading : '|' ∉ part.tail := by
    refine bar_not_mem_tail ?_ (List.mem_of_getElem? found)
    intro before after cut
    have bar := (barsSpaced_iff _).mp spaced before after cut
    exact ⟨fun _ => bar.space_before, bar.space_after⟩
  refine ⟨head_ne_space_of_spaced trimmed spacedPieces,
    last_ne_space_of_spaced trimmed spacedPieces, single, ?_, space⟩
  intro before after cut
  cases before with
  | cons c before => exact absurd (by simp [cut]) leading
  | nil =>
      rw [List.nil_append] at cut
      subst cut
      obtain ⟨following, spaceAfter⟩ := bar_of_spaced spacedPieces
      have positive : position ≠ 0 := by
        intro first
        subst first
        exact following (List.length_eq_zero_iff.mp length)
      refine ⟨?_, rfl, ?_⟩
      · have second : position ≠ 1 := fun second => late second rfl
        omega
      · cases after with
        | nil => exact absurd space (by decide)
        | cons c after => simpa using spaceAfter

theorem InteriorOf.bar_not_mem_tail {pieces : List (List Char)} {interior piece : List Char}
    (cut : InteriorOf pieces interior) (member : piece ∈ pieces) : '|' ∉ piece.tail := by
  obtain ⟨position, found⟩ := List.mem_iff_getElem?.mp member
  intro bar
  cases piece with
  | nil => simp at bar
  | cons c rest =>
      obtain ⟨before, after, rfl⟩ := List.append_of_mem bar
      have leads := (cut.valid position _ found).leading_bar (c :: before) after rfl
      simp at leads

theorem InteriorOf.ne_nil {pieces : List (List Char)} {interior : List Char}
    (cut : InteriorOf pieces interior) : pieces ≠ [] := by
  obtain ⟨part, found, _⟩ := cut.method_first
  intro empty
  subst empty
  simp at found

/-- A valid part is more than its first character, so the edges of its neighbours are not seen. -/
theorem ValidPart.ne_nil {position : Nat} {part : List Char} (valid : ValidPart position part) :
    part ≠ [] := by
  intro empty
  subst empty
  have space := valid.has_space
  contradiction

theorem InteriorOf.parts_eq {pieces : List (List Char)} {interior : List Char}
    (cut : InteriorOf pieces interior) : parts interior = pieces := by
  rw [cut.joined]
  exact parts_joinParts cut.ne_nil (fun _ member => cut.bar_not_mem_tail member)

theorem InteriorOf.spaced {pieces : List (List Char)} {interior : List Char}
    (cut : InteriorOf pieces interior) : barsSpaced interior = true := by
  rw [barsSpaced_iff, cut.joined]
  intro before after joined
  rcases bar_of_joinParts cut.ne_nil joined with
    ⟨front, back, left, right, rfl, rfl, rfl⟩ | ⟨front, piece, next, back, rfl, rfl, rfl⟩
  · have valid := cut.valid front.length (left ++ '|' :: right) (by simp)
    obtain ⟨late, rfl, spaceAfter⟩ := valid.leading_bar left right rfl
    have following : front ≠ [] := by
      intro empty
      subst empty
      simp at late
    obtain ⟨before, closing⟩ := closeParts_of_ne_nil following
    obtain ⟨more, rfl⟩ := List.head?_eq_some_iff.mp spaceAfter
    -- The bar's second neighbour is in its own part, which does not end with the space.
    have second : (more ++ openParts back).head? ≠ some ' ' := by
      cases more with
      | nil => exact absurd rfl valid.last_ne_space
      | cons c more =>
          intro double
          obtain rfl : c = ' ' := by simpa using double
          exact valid.single_spaces ⟨['|'], more, rfl⟩
    refine ⟨?_, ?_, rfl, second⟩
    · simp [closing, separator]
    · simp [closing, separator]
  · have valid := cut.valid front.length piece (by simp)
    have validNext := cut.valid (front.length + 1) next (by simp)
    refine ⟨by simp, ?_, rfl, ?_⟩
    · rw [List.dropLast_concat, List.getLast?_append_of_ne_nil _ valid.ne_nil]
      exact valid.last_ne_space
    · rw [List.tail_cons, List.head?_append_of_ne_nil _ validNext.ne_nil]
      exact validNext.head_ne_space

/-! ### The accepted lines -/

theorem IsSectionOf.has_space {part : List Char} {entry : Section} (cut : IsSectionOf part entry) :
    ' ' ∈ trim part := by
  rw [cut.1]
  simp

/-- A section with something for each of its two texts, blanks aside. -/
structure Section.Filled (entry : Section) : Prop where
  keyword : entry.keyword ≠ ""
  value : trim entry.value.toList ≠ []

/-- A part has no blank at its ends once it is trimmed, so its space stands inside. -/
theorem IsSectionOf.filled {part : List Char} {entry : Section} (cut : IsSectionOf part entry) :
    entry.Filled := by
  have trimmed := trimmed_trim part
  rw [cut.1] at trimmed
  refine ⟨?_, ?_⟩
  · intro empty
    rw [empty] at trimmed
    have solid := trimmed.1 ' ' rfl
    contradiction
  · intro blank
    have blanks := trim_eq_nil_iff.mp blank
    obtain ⟨last, ending⟩ : ∃ c, (' ' :: entry.value.toList).getLast? = some c :=
      Option.isSome_iff_exists.mp (List.getLast?_isSome.mpr (by simp))
    have solid := trimmed.2 last (by simp [ending])
    rcases List.mem_cons.mp (List.mem_of_getLast? ending) with rfl | member
    · contradiction
    · rw [blanks last member] at solid
      contradiction

/-- What a part begins with behind its blanks, it begins with unless it begins with a blank. -/
theorem url_part_head {part : List Char} (leads : "URL ".toList <+: trim part) :
    part.head? ≠ some '|' := by
  intro bar
  have started : trimStart part = part := by
    refine trimStart_eq_self ?_
    intro c first
    obtain rfl : '|' = c := by simpa [bar] using first
    rfl
  have first : (trim part).head? = some 'U' := head_of_leading leads rfl
  rw [trim, started] at first
  have same := head_of_leading (trimEnd_leads part) first
  rw [bar] at same
  contradiction

theorem Sections.ofInterior_iff_interiorOf {interior : List Char} {sections : Sections}
    (trimmed : Trimmed interior) :
    Sections.ofInterior interior = .ok sections ↔
      ∃ pieces, InteriorOf pieces interior ∧ List.Forall₂ IsSectionOf pieces sections.toList := by
  simp only [ofInterior_eq_ok_iff, ofParts_eq_ok_iff, Section.ofPart_eq_ok_iff,
    List.forall₂_and_left]
  apply Iff.intro
  · intro described
    obtain ⟨_, spaced, methodFirst, urlSecond, single, entries⟩ := described
    have spaces : ∀ part ∈ parts interior, ' ' ∈ trim part := by
      have both := entries.imp (fun part entry cut => And.intro (IsSectionOf.has_space cut) cut)
      exact ((List.forall₂_and_left _ _).mp both).1
    refine ⟨parts interior, ⟨(joinParts_parts interior).symm, ?_, methodFirst, urlSecond⟩, entries⟩
    intro position part found
    have member := List.mem_of_getElem? found
    refine validPart_of_spaced trimmed spaced found (single part member) (spaces part member) ?_
    intro place
    subst place
    obtain ⟨second, here, leads⟩ := urlSecond
    obtain rfl : part = second := by simpa [found] using here
    exact url_part_head leads
  · intro described
    obtain ⟨pieces, cut, entries⟩ := described
    rw [cut.parts_eq]
    refine ⟨?_, cut.spaced, cut.method_first, cut.url_second, ?_, entries⟩
    · intro empty
      subst empty
      have pieces := cut.parts_eq
      obtain ⟨part, found, leads⟩ := cut.url_second
      rw [← pieces] at found
      simp [parts] at found
    · intro part member
      obtain ⟨position, found⟩ := List.mem_iff_getElem?.mp member
      exact (cut.valid position part found).single_spaces

theorem Sections.ofLine_of_bracketed {line : String} {content : List Char}
    (bracketed : trim line.toList = '[' :: content ++ [']']) :
    Sections.ofLine line = Sections.ofInterior (trim content) := by
  have some : line.isEmpty = false := by
    rw [Bool.eq_false_iff]
    intro empty
    obtain rfl : line = "" := by simpa using empty
    contradiction
  rw [Sections.ofLine, some, interior?_eq_some_iff.mpr ⟨content, bracketed, rfl⟩]
  rfl

theorem Sections.ofLine_eq_ok_iff {line : String} {sections : Sections} :
    Sections.ofLine line = .ok sections ↔
      ∃ pieces, Decomposes line pieces ∧ List.Forall₂ IsSectionOf pieces sections.toList := by
  apply Iff.intro
  · intro accepted
    cases found : interior? line.toList with
    | none =>
        rw [Sections.ofLine, found] at accepted
        split at accepted <;> contradiction
    | some interior =>
        obtain ⟨content, bracketed, rfl⟩ := interior?_eq_some_iff.mp found
        rw [ofLine_of_bracketed bracketed] at accepted
        obtain ⟨pieces, cut, entries⟩ :=
          (ofInterior_iff_interiorOf (trimmed_trim content)).mp accepted
        exact ⟨pieces, ⟨content, bracketed, cut⟩, entries⟩
  · intro described
    obtain ⟨pieces, ⟨content, bracketed, cut⟩, entries⟩ := described
    rw [ofLine_of_bracketed bracketed]
    exact (ofInterior_iff_interiorOf (trimmed_trim content)).mpr ⟨pieces, cut, entries⟩

theorem Decomposes.unique {line : String} {pieces others : List (List Char)}
    (cut : Decomposes line pieces) (cutOther : Decomposes line others) : pieces = others := by
  obtain ⟨content, bracketed, interior⟩ := cut
  obtain ⟨contentOther, bracketedOther, interiorOther⟩ := cutOther
  obtain rfl : content = contentOther := by
    rw [bracketed] at bracketedOther
    simpa using bracketedOther
  rw [← interior.parts_eq, interiorOther.parts_eq]

theorem Decomposes.two_parts {line : String} {pieces : List (List Char)}
    (cut : Decomposes line pieces) : ∃ first second rest, pieces = first :: second :: rest := by
  obtain ⟨_, _, interior⟩ := cut
  obtain ⟨second, found, _⟩ := interior.url_second
  match pieces with
  | [] => simp at found
  | [_] => simp at found
  | first :: second :: rest => exact ⟨first, second, rest, rfl⟩

/-- A line is accepted with these sections exactly if it decomposes into valid parts of which they
are the keywords and values, and it decomposes in one way only. -/
theorem ofLine_accepts_grammar (line : String) (entries : List Section) :
    ((Sections.ofLine line).map Sections.toList = .ok entries ↔
      ∃ pieces, Decomposes line pieces ∧ List.Forall₂ IsSectionOf pieces entries) ∧
    {pieces | Decomposes line pieces}.Subsingleton := by
  refine ⟨?_, ?_⟩
  · apply Iff.intro
    · intro accepted
      cases read : Sections.ofLine line with
      | error cause => simp [read, Except.map] at accepted
      | ok sections =>
          obtain rfl : sections.toList = entries := by simpa [read, Except.map] using accepted
          exact Sections.ofLine_eq_ok_iff.mp read
    · intro described
      obtain ⟨pieces, cut, related⟩ := described
      -- There are two parts at least, hence also the two sections that every line has.
      obtain ⟨first, second, rest, rfl⟩ := cut.two_parts
      obtain ⟨http, later, _, others, rfl⟩ := List.forall₂_cons_left_iff.mp related
      obtain ⟨url, trailing, _, _, rfl⟩ := List.forall₂_cons_left_iff.mp others
      have accepted : Sections.ofLine line = .ok ⟨http, url, trailing⟩ :=
        Sections.ofLine_eq_ok_iff.mpr ⟨_, cut, related⟩
      rw [accepted]
      rfl
  · intro pieces cut others cutOther
    exact Decomposes.unique cut cutOther

end RequestLine
