import Mathlib.Data.List.TakeWhile
import RequestLine.Text.Parts

/-!
The cutting of a text at its bars.  Joining undoes cutting for every text; cutting undoes joining
as long as no piece has a bar after its first character, and the parts of a text whose bars are
spaced are such pieces.  A text is also cut where the characters of one kind end, as a scanner does it.
-/

namespace RequestLine.Text

/-- A bar between `before` and `after` has exactly one space on each side. -/
structure BarSpaced (before after : List Char) : Prop where
  space_before : before.getLast? = some ' '
  single_before : before.dropLast.getLast? ≠ some ' '
  space_after : after.head? = some ' '
  single_after : after.tail.head? ≠ some ' '

/-- The scan sees of the text before it only the last two characters. -/
theorem barsSpacedAfter_iff (context text : List Char) :
    barsSpacedAfter context.dropLast.getLast? context.getLast? text = true ↔
      ∀ before after, text = before ++ '|' :: after → BarSpaced (context ++ before) after := by
  induction text generalizing context with
  | nil => simp [barsSpacedAfter]
  | cons c rest ih =>
      have later := ih (context ++ [c])
      rw [List.dropLast_concat, List.getLast?_concat] at later
      rw [barsSpacedAfter, Bool.and_eq_true, later]
      apply Iff.intro
      · intro described before after cut
        obtain ⟨here, spaced⟩ := described
        cases before with
        | nil =>
            obtain ⟨rfl, rfl⟩ : c = '|' ∧ rest = after := by simpa using cut
            simp only [bne_self_eq_false, Bool.false_or, Bool.and_eq_true, beq_iff_eq, bne_iff_ne]
              at here
            obtain ⟨⟨⟨spaceBefore, singleBefore⟩, spaceAfter⟩, singleAfter⟩ := here
            rw [List.append_nil]
            exact ⟨spaceBefore, singleBefore, spaceAfter, singleAfter⟩
        | cons _ before =>
            rw [List.cons_append] at cut
            obtain ⟨rfl, below⟩ := List.cons.inj cut
            simpa using spaced before after below
      · intro spaced
        refine ⟨?_, ?_⟩
        · by_cases bar : c = '|'
          · subst bar
            obtain ⟨spaceBefore, singleBefore, spaceAfter, singleAfter⟩ := spaced [] rest rfl
            rw [List.append_nil] at spaceBefore singleBefore
            simp only [spaceBefore, spaceAfter, bne_self_eq_false, Bool.false_or, BEq.rfl,
              Bool.true_and, Bool.and_true, Bool.and_eq_true, bne_iff_ne]
            exact ⟨singleBefore, singleAfter⟩
          · simp [bar]
        · intro before after cut
          simpa using spaced (c :: before) after (by rw [cut]; rfl)

theorem barsSpaced_iff (text : List Char) :
    barsSpaced text = true ↔
      ∀ before after, text = before ++ '|' :: after → BarSpaced before after :=
  barsSpacedAfter_iff [] text

/-! ### Pieces in the joined text -/

/-- Pieces with a separator after each of them. -/
def closeParts (pieces : List (List Char)) : List Char :=
  pieces.flatMap (· ++ separator)

/-- Pieces with a separator before each of them. -/
def openParts (pieces : List (List Char)) : List Char :=
  pieces.flatMap (separator ++ ·)

theorem joinParts_cons (piece : List Char) (pieces : List (List Char)) :
    joinParts (piece :: pieces) = piece ++ openParts pieces := by
  induction pieces generalizing piece with
  | nil => simp [joinParts, openParts]
  | cons next rest ih =>
      have joined := ih next
      rw [joinParts] at joined
      rw [joinParts, List.intercalate_cons_cons, joined]
      simp [openParts]

theorem joinParts_cons_cons (piece next : List Char) (rest : List (List Char)) :
    joinParts (piece :: next :: rest) = piece ++ separator ++ joinParts (next :: rest) :=
  List.intercalate_cons_cons

theorem joinParts_append_cons (front : List (List Char)) (piece : List Char)
    (back : List (List Char)) :
    joinParts (front ++ piece :: back) = closeParts front ++ (piece ++ openParts back) := by
  induction front with
  | nil => simp [closeParts, joinParts_cons]
  | cons first front ih =>
      obtain ⟨next, rest, shape⟩ : ∃ next rest, front ++ piece :: back = next :: rest :=
        List.exists_cons_of_ne_nil (by simp)
      rw [List.cons_append, shape, joinParts_cons_cons, ← shape, ih]
      simp [closeParts]

theorem closeParts_of_ne_nil {pieces : List (List Char)} (nonempty : pieces ≠ []) :
    ∃ front, closeParts pieces = front ++ separator := by
  obtain ⟨front, last, rfl⟩ := (List.eq_nil_or_concat pieces).resolve_left nonempty
  exact ⟨closeParts front ++ last, by simp [closeParts]⟩

theorem openParts_cons (piece : List Char) (pieces : List (List Char)) :
    openParts (piece :: pieces) = separator ++ (piece ++ openParts pieces) := by
  simp [openParts]

/-- A bar of a joined text stands in one of the pieces or between two of them. -/
theorem bar_of_joinParts {pieces : List (List Char)} {before after : List Char}
    (nonempty : pieces ≠ []) (cut : joinParts pieces = before ++ '|' :: after) :
    (∃ front back left right, pieces = front ++ (left ++ '|' :: right) :: back ∧
      before = closeParts front ++ left ∧ after = right ++ openParts back) ∨
    ∃ front piece next back, pieces = front ++ piece :: next :: back ∧
      before = closeParts front ++ piece ++ [' '] ∧ after = ' ' :: (next ++ openParts back) := by
  induction pieces generalizing before with
  | nil => exact absurd rfl nonempty
  | cons piece rest ih =>
      rw [joinParts_cons] at cut
      rcases List.append_eq_append_iff.mp cut with ⟨gap, rfl, later⟩ | ⟨inner, shape, later⟩
      · cases rest with
        | nil => simp [openParts] at later
        | cons next back =>
            rw [openParts_cons, separator] at later
            -- The bar is that of the separator, or it comes after the separator.
            match gap with
            | [] => simp at later
            | [space] =>
                obtain ⟨rfl, rfl⟩ : ' ' = space ∧ ' ' :: (next ++ openParts back) = after := by
                  simpa using later
                exact .inr ⟨[], piece, next, back, rfl, by simp [closeParts], rfl⟩
            | [space, bar] => simp at later
            | space :: bar :: closing :: gap =>
                obtain ⟨rfl, rfl, rfl, beyond⟩ :
                    ' ' = space ∧ '|' = bar ∧ ' ' = closing ∧
                      next ++ openParts back = gap ++ '|' :: after := by
                  simpa using later
                have joined : joinParts (next :: back) = gap ++ '|' :: after := by
                  rw [joinParts_cons, beyond]
                rcases ih (by simp) joined with
                  ⟨front, back, left, right, shape, rfl, rfl⟩ |
                  ⟨front, inner, following, back, shape, rfl, rfl⟩
                · exact .inl ⟨piece :: front, back, left, right, by rw [shape]; rfl,
                    by simp [closeParts, separator], rfl⟩
                · exact .inr ⟨piece :: front, inner, following, back, by rw [shape]; rfl,
                    by simp [closeParts, separator], rfl⟩
      · cases inner with
        | nil =>
            cases rest with
            | nil => simp [openParts] at later
            | cons next back => simp [openParts_cons, separator] at later
        | cons bar right =>
            obtain ⟨rfl, rfl⟩ := List.cons.inj later
            exact .inl ⟨[], rest, before, right, by rw [shape]; rfl, by simp [closeParts], rfl⟩

/-! ### Cutting and joining -/

theorem joinParts_parts (text : List Char) : joinParts (parts text) = text := by
  fun_induction parts text with
  | case1 => rfl
  | case2 rest ih =>
      obtain ⟨next, others, shape⟩ := List.exists_cons_of_ne_nil (parts_ne_nil rest)
      rw [shape] at ih ⊢
      rw [joinParts_cons_cons, ih]
      rfl
  | case3 c rest _ ih =>
      obtain ⟨next, others, shape⟩ := List.exists_cons_of_ne_nil (parts_ne_nil rest)
      rw [shape, joinParts_cons] at ih
      rw [shape, List.modifyHead_cons, joinParts_cons, List.cons_append, ih]

theorem parts_cons {c : Char} {rest : List Char}
    (other : ∀ text, c = ' ' → rest ≠ '|' :: ' ' :: text) :
    parts (c :: rest) = (parts rest).modifyHead (c :: ·) := by
  rw [parts]
  intro text space shape
  exact other text space shape

theorem parts_eq_singleton {text : List Char} (single : '|' ∉ text.tail) : parts text = [text] := by
  induction text with
  | nil => rfl
  | cons c rest ih =>
      rw [List.tail_cons] at single
      rw [parts_cons, ih (fun member => single (List.mem_of_mem_tail member)),
        List.modifyHead_cons]
      intro text _ shape
      simp [shape] at single

/-- A separator is found where it stands unless the text before it ends like one, whose last space is
then the first of this one. -/
theorem parts_append_parts {front : List Char} (apart : ¬ [' ', '|'] <:+ front) (back : List Char) :
    parts (front ++ separator ++ back) = parts front ++ parts back := by
  fun_induction parts front with
  | case1 => rfl
  | case2 rest ih =>
      have within := ih (fun ending => apart (ending.trans (List.suffix_append [' ', '|', ' '] rest)))
      exact congrArg ([] :: ·) within
  | case3 c rest other ih =>
      have within := ih (fun ending => apart (ending.trans (List.suffix_cons c rest)))
      obtain ⟨first, others, shape⟩ := List.exists_cons_of_ne_nil (parts_ne_nil rest)
      have cut : ∀ text, c = ' ' → rest ++ separator ++ back ≠ '|' :: ' ' :: text := by
        intro text space found
        cases rest with
        | nil => simp [separator] at found
        | cons bar rest =>
            cases rest with
            | nil =>
                obtain ⟨rfl, _⟩ := List.cons.inj found
                subst space
                exact apart List.suffix_rfl
            | cons next rest =>
                obtain ⟨rfl, rfl, _⟩ :
                    bar = '|' ∧ next = ' ' ∧ rest ++ separator ++ back = text := by simpa using found
                exact other rest space rfl
      rw [List.cons_append, List.cons_append, parts_cons cut, within, shape]
      rfl

theorem parts_append_separator {first : List Char} (single : '|' ∉ first.tail)
    (rest : List Char) : parts (first ++ separator ++ rest) = first :: parts rest := by
  have apart : ¬ [' ', '|'] <:+ first := by
    intro ending
    obtain ⟨front, rfl⟩ := ending
    cases front <;> simp at single
  rw [parts_append_parts apart, parts_eq_singleton single, List.singleton_append]

theorem parts_joinParts {pieces : List (List Char)} (nonempty : pieces ≠ [])
    (single : ∀ piece ∈ pieces, '|' ∉ piece.tail) : parts (joinParts pieces) = pieces := by
  induction pieces with
  | nil => exact absurd rfl nonempty
  | cons piece rest ih =>
      have first := single piece List.mem_cons_self
      cases rest with
      | nil => simpa [joinParts] using parts_eq_singleton first
      | cons next rest =>
          rw [joinParts_cons_cons, parts_append_separator first,
            ih (by simp) (fun other member => single other (List.mem_cons_of_mem _ member))]

/-- With a space on each side of every bar, a bar can only begin a part: the space before any
other would begin a separator. -/
theorem bar_not_mem_tail {text : List Char}
    (spaced : ∀ before after, text = before ++ '|' :: after →
      (before ≠ [] → before.getLast? = some ' ') ∧ after.head? = some ' ')
    {piece : List Char} (member : piece ∈ parts text) : '|' ∉ piece.tail := by
  fun_induction parts text generalizing piece with
  | case1 =>
      obtain rfl := List.mem_singleton.mp member
      simp
  | case2 rest ih =>
      rcases List.mem_cons.mp member with rfl | member
      · simp
      · refine ih ?_ member
        intro before after cut
        obtain ⟨spaceBefore, spaceAfter⟩ := spaced (' ' :: '|' :: ' ' :: before) after (by simp [cut])
        refine ⟨?_, spaceAfter⟩
        intro more
        simpa [List.getLast?_cons, List.getLast?_eq_some_getLast more] using spaceBefore (by simp)
  | case3 c rest other ih =>
      have spacedRest : ∀ before after, rest = before ++ '|' :: after →
          (before ≠ [] → before.getLast? = some ' ') ∧ after.head? = some ' ' := by
        intro before after cut
        obtain ⟨spaceBefore, spaceAfter⟩ := spaced (c :: before) after (by simp [cut])
        refine ⟨?_, spaceAfter⟩
        intro more
        simpa [List.getLast?_cons, List.getLast?_eq_some_getLast more] using spaceBefore (by simp)
      obtain ⟨first, others, shape⟩ := List.exists_cons_of_ne_nil (parts_ne_nil rest)
      rw [shape, List.modifyHead_cons] at member
      rcases List.mem_cons.mp member with rfl | member
      · have single : '|' ∉ first.tail := ih spacedRest (by simp [shape])
        have joined := joinParts_parts rest
        rw [shape, joinParts_cons] at joined
        intro bar
        cases first with
        | nil => simp at bar
        | cons next first =>
            rcases List.mem_cons.mp bar with rfl | bar
            · obtain ⟨spaceBefore, spaceAfter⟩ :=
                spaced [c] (first ++ openParts others) (by rw [← joined]; rfl)
              obtain ⟨after, ending⟩ := List.head?_eq_some_iff.mp spaceAfter
              refine other after (by simpa using spaceBefore (by simp)) ?_
              rw [← joined, ← ending]
              rfl
            · exact single bar
      · exact ih spacedRest (by simp [shape, member])

/-! ### The first character of another kind -/

section FirstOutside

variable {inside : Char → Bool} {text front back : List Char}

theorem takeWhile_dropWhile_iff :
    (text.takeWhile inside = front ∧ text.dropWhile inside = back) ↔
      text = front ++ back ∧ (∀ c ∈ front, inside c = true) ∧
        ∀ c, back.head? = some c → inside c = false := by
  apply Iff.intro
  · intro cut
    obtain ⟨rfl, rfl⟩ := cut
    refine ⟨List.takeWhile_append_dropWhile.symm, fun c member => List.mem_takeWhile_imp member, ?_⟩
    intro c first
    have outside := List.head?_dropWhile_not inside text
    rw [first] at outside
    simpa using outside
  · intro described
    obtain ⟨rfl, within, outside⟩ := described
    rw [List.takeWhile_append_of_pos within, List.dropWhile_append_of_pos within]
    cases back with
    | nil => exact ⟨List.append_nil front, rfl⟩
    | cons c rest =>
        have stop : ¬ inside c = true := by simp [outside c rfl]
        rw [List.takeWhile_cons_of_neg stop, List.dropWhile_cons_of_neg stop, List.append_nil]
        exact ⟨rfl, rfl⟩

theorem takeWhile_eq_iff :
    text.takeWhile inside = front ↔
      ∃ back, text = front ++ back ∧ (∀ c ∈ front, inside c = true) ∧
        ∀ c, back.head? = some c → inside c = false := by
  apply Iff.intro
  · intro taken
    exact ⟨_, takeWhile_dropWhile_iff.mp ⟨taken, rfl⟩⟩
  · intro found
    obtain ⟨back, described⟩ := found
    exact (takeWhile_dropWhile_iff.mpr described).1

theorem dropWhile_eq_iff :
    text.dropWhile inside = back ↔
      ∃ front, text = front ++ back ∧ (∀ c ∈ front, inside c = true) ∧
        ∀ c, back.head? = some c → inside c = false := by
  apply Iff.intro
  · intro dropped
    exact ⟨_, takeWhile_dropWhile_iff.mp ⟨rfl, dropped⟩⟩
  · intro found
    obtain ⟨front, described⟩ := found
    exact (takeWhile_dropWhile_iff.mpr described).2

end FirstOutside

/-! ### The first of a sign -/

section FirstSign

variable {sign : Char} {front : List Char} (absent : sign ∉ front)
include absent

theorem ne_of_absent : ∀ c ∈ front, (c != sign) = true := by
  intro c member
  rw [bne_iff_ne]
  intro same
  exact absent (same ▸ member)

theorem takeWhile_of_absent : front.takeWhile (· != sign) = front :=
  List.takeWhile_eq_self_iff.mpr (ne_of_absent absent)

theorem takeWhile_before_sign (back : List Char) :
    (front ++ sign :: back).takeWhile (· != sign) = front := by
  rw [List.takeWhile_append_of_pos (ne_of_absent absent)]
  simp

theorem dropWhile_before_sign (back : List Char) :
    (front ++ sign :: back).dropWhile (· != sign) = sign :: back := by
  rw [List.dropWhile_append_of_pos (ne_of_absent absent)]
  simp

end FirstSign

/-! ### Spaces in a part -/

theorem hasDoubleSpace_iff (text : List Char) :
    hasDoubleSpace text = true ↔ [' ', ' '] <:+: text := by
  fun_induction hasDoubleSpace text with
  | case1 rest => simp [List.infix_cons_iff]
  | case2 c rest other ih =>
      rw [ih, List.infix_cons_iff]
      apply Iff.intro
      · exact .inr
      · intro found
        rcases found with ⟨after, leading⟩ | later
        · obtain ⟨rfl, rfl⟩ := List.cons.inj leading
          exact absurd rfl (other after rfl)
        · exact later
  | case3 => simp

theorem splitKeyword?_eq_some_iff {text keyword value : List Char} :
    splitKeyword? text = some (keyword, value) ↔ text = keyword ++ ' ' :: value ∧ ' ' ∉ keyword := by
  apply Iff.intro
  · intro split
    unfold splitKeyword? at split
    cases dropped : text.dropWhile (· != ' ') with
    | nil => simp [dropped] at split
    | cons c rest =>
        rw [dropped] at split
        obtain ⟨front, rfl⟩ : text.takeWhile (· != ' ') = keyword ∧ rest = value := by
          simpa using split
        obtain ⟨whole, single, stop⟩ := takeWhile_dropWhile_iff.mp ⟨front, dropped⟩
        obtain rfl : c = ' ' := by simpa using stop c rfl
        refine ⟨whole, ?_⟩
        intro member
        simpa using single ' ' member
  · intro described
    obtain ⟨rfl, single⟩ := described
    rw [splitKeyword?, dropWhile_before_sign single, takeWhile_before_sign single]

theorem splitKeyword?_eq_none_iff {text : List Char} : splitKeyword? text = none ↔ ' ' ∉ text := by
  apply Iff.intro
  · intro split member
    obtain ⟨keyword, value, shape, single⟩ := List.eq_append_cons_of_mem member
    rw [splitKeyword?_eq_some_iff.mpr ⟨shape, single⟩] at split
    contradiction
  · intro absent
    cases split : splitKeyword? text with
    | none => rfl
    | some pair =>
        obtain ⟨shape, _⟩ := splitKeyword?_eq_some_iff.mp split
        exact absurd (by simp [shape]) absent

end RequestLine.Text
