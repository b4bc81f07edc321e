import Mathlib.Data.List.Basic
import Mathlib.Data.List.TakeWhile
import RequestLine.Text.Blank

/-! What trimming takes away at each end, and which texts it leaves as they are. -/

namespace RequestLine.Text

theorem range_of_isAlphanum {c : Char} (alphanumeric : c.isAlphanum = true) :
    ('A' ≤ c ∧ c ≤ 'Z') ∨ ('a' ≤ c ∧ c ≤ 'z') ∨ ('0' ≤ c ∧ c ≤ '9') := by
  have spelled : ((c.isUpper || c.isLower) || c.isDigit) = true := alphanumeric
  rw [Bool.or_eq_true, Bool.or_eq_true] at spelled
  rcases spelled with (upper | lower) | digit
  · exact .inl (of_decide_eq_true upper)
  · have bounds := (Bool.and_eq_true _ _).mp lower
    exact .inr (.inl ⟨of_decide_eq_true bounds.1, of_decide_eq_true bounds.2⟩)
  · have bounds := (Bool.and_eq_true _ _).mp digit
    exact .inr (.inr ⟨of_decide_eq_true bounds.1, of_decide_eq_true bounds.2⟩)

theorem isBlank_of_isAlphanum {c : Char} (alphanumeric : c.isAlphanum = true) :
    isBlank c = false := by
  have range : 65 ≤ c.toNat ∧ c.toNat ≤ 90 ∨ 97 ≤ c.toNat ∧ c.toNat ≤ 122 ∨
      48 ≤ c.toNat ∧ c.toNat ≤ 57 := range_of_isAlphanum alphanumeric
  simp only [isBlank, blankRanges, List.any_cons, List.any_nil, Bool.or_false,
    Bool.or_eq_false_iff, Bool.and_eq_false_iff, decide_eq_false_iff_not]
  omega

/-- No blank stands at either end. -/
def Trimmed (text : List Char) : Prop :=
  (∀ c, text.head? = some c → isBlank c = false) ∧
    ∀ c, text.getLast? = some c → isBlank c = false

instance (text : List Char) : Decidable (Trimmed text) :=
  decidable_of_iff (text.head?.all (fun c => !isBlank c) = true ∧
      text.getLast?.all (fun c => !isBlank c) = true)
    (by simp [Trimmed, Option.all_eq_true])

theorem Trimmed.append {front back : List Char} (frontTrimmed : Trimmed front)
    (backTrimmed : Trimmed back) (frontNonempty : front ≠ []) (backNonempty : back ≠ [])
    (middle : List Char) : Trimmed (front ++ (middle ++ back)) := by
  refine ⟨?_, ?_⟩
  · intro c first
    rw [List.head?_append_of_ne_nil _ frontNonempty] at first
    exact frontTrimmed.1 c first
  · intro c last
    rw [← List.append_assoc, List.getLast?_append_of_ne_nil _ backNonempty] at last
    exact backTrimmed.2 c last

theorem trimmed_enclosed {opening closing : Char} (first : isBlank opening = false)
    (last : isBlank closing = false) (content : List Char) :
    Trimmed (opening :: content ++ [closing]) := by
  refine ⟨?_, ?_⟩
  · intro c head
    cases head
    exact first
  · intro c tail
    rw [List.getLast?_concat] at tail
    cases tail
    exact last

theorem trimStart_eq_self {text : List Char}
    (solid : ∀ c, text.head? = some c → isBlank c = false) : trimStart text = text := by
  cases text with
  | nil => rfl
  | cons c rest => exact List.dropWhile_cons_of_neg (by simp [solid c rfl])

theorem trimEnd_eq_self {text : List Char}
    (solid : ∀ c, text.getLast? = some c → isBlank c = false) : trimEnd text = text := by
  have reversed : trimStart text.reverse = text.reverse :=
    trimStart_eq_self (by simpa only [List.head?_reverse] using solid)
  rw [trimEnd, reversed, List.reverse_reverse]

theorem Trimmed.trim_eq {text : List Char} (trimmed : Trimmed text) : trim text = text := by
  rw [trim, trimStart_eq_self trimmed.1, trimEnd_eq_self trimmed.2]

theorem trimStart_suffix (text : List Char) : trimStart text <:+ text :=
  List.dropWhile_suffix _

theorem trimEnd_leads (text : List Char) : trimEnd text <+: text := by
  have ending := List.reverse_prefix.mpr (trimStart_suffix text.reverse)
  simpa only [trimEnd, List.reverse_reverse] using ending

theorem trim_inside (text : List Char) : trim text <:+: text :=
  (trimEnd_leads _).isInfix.trans (trimStart_suffix text).isInfix

theorem head_trimStart {text : List Char} {c : Char} (first : (trimStart text).head? = some c) :
    isBlank c = false := by
  have stopped := List.head?_dropWhile_not isBlank text
  rw [trimStart] at first
  rw [first] at stopped
  exact stopped

theorem getLast_trimEnd {text : List Char} {c : Char}
    (last : (trimEnd text).getLast? = some c) : isBlank c = false := by
  rw [trimEnd, List.getLast?_reverse] at last
  exact head_trimStart last

theorem head_of_leading {front text : List Char} {c : Char} (cut : front <+: text)
    (first : front.head? = some c) : text.head? = some c := by
  obtain ⟨rest, rfl⟩ := cut
  cases front with
  | nil => simp at first
  | cons _ _ => simpa using first

theorem trimmed_trim (text : List Char) : Trimmed (trim text) := by
  refine ⟨?_, ?_⟩
  · intro c first
    exact head_trimStart (head_of_leading (trimEnd_leads _) first)
  · intro c last
    exact getLast_trimEnd last

theorem trimEnd_append {back : List Char} (solid : trimEnd back ≠ []) (front : List Char) :
    trimEnd (front ++ back) = front ++ trimEnd back := by
  have kept : (List.dropWhile isBlank back.reverse).isEmpty = false := by
    simpa [trimEnd, trimStart] using solid
  rw [trimEnd, List.reverse_append, trimStart, List.dropWhile_append, kept]
  simp [trimEnd, trimStart]

theorem trimEnd_eq_nil_iff {text : List Char} : trimEnd text = [] ↔ ∀ c ∈ text, isBlank c := by
  simp [trimEnd, trimStart, List.dropWhile_eq_nil_iff]

theorem trim_eq_nil_iff {text : List Char} : trim text = [] ↔ ∀ c ∈ text, isBlank c := by
  rw [trim, trimEnd_eq_nil_iff]
  apply Iff.intro
  · intro blank
    have nothing : trimStart text = [] := by
      cases started : trimStart text with
      | nil => rfl
      | cons c rest =>
          have solid : isBlank c = false := head_trimStart (by rw [started]; rfl)
          rw [blank c (by simp [started])] at solid
          contradiction
    simpa only [trimStart, List.dropWhile_eq_nil_iff] using nothing
  · intro blank c member
    exact blank c ((trimStart_suffix text).mem member)

theorem trimEnd_append_blanks {blanks : List Char} (blank : ∀ c ∈ blanks, isBlank c)
    (text : List Char) : trimEnd (text ++ blanks) = trimEnd text := by
  have dropped : trimStart (blanks.reverse ++ text.reverse) = trimStart text.reverse :=
    List.dropWhile_append_of_pos (by simpa using blank)
  rw [trimEnd, List.reverse_append, dropped, trimEnd]

/-- Blanks around a text do not matter. -/
theorem trim_padded {before after : List Char} (blankBefore : ∀ c ∈ before, isBlank c)
    (blankAfter : ∀ c ∈ after, isBlank c) (text : List Char) :
    trim (before ++ text ++ after) = trim text := by
  have dropped : trimStart (before ++ (text ++ after)) = trimStart (text ++ after) :=
    List.dropWhile_append_of_pos blankBefore
  rw [trim, List.append_assoc, dropped, trim]
  -- A text of blanks alone leaves its own trailing blanks to the first half of the trimming.
  by_cases empty : trimStart text = []
  · have blankText : ∀ c ∈ text, isBlank c := by
      simpa only [trimStart, List.dropWhile_eq_nil_iff] using empty
    have nothing : trimStart (text ++ after) = [] := by
      rw [trimStart, List.dropWhile_append_of_pos blankText, List.dropWhile_eq_nil_iff]
      exact blankAfter
    rw [nothing, empty]
  · have kept : trimStart (text ++ after) = trimStart text ++ after := by
      have some : (List.dropWhile isBlank text).isEmpty = false := by
        simpa [trimStart] using empty
      rw [trimStart, List.dropWhile_append, some]
      rfl
    rw [kept, trimEnd_append_blanks blankAfter]

/-- Nothing is taken from an end that has no blanks, so what stands there stays in sight. -/
theorem trim_append_trimmed {solid : List Char} (trimmed : Trimmed solid) (nonempty : solid ≠ [])
    (front : List Char) : ∃ left, trim (front ++ solid) = left ++ solid := by
  obtain ⟨first, rest, rfl⟩ := List.exists_cons_of_ne_nil nonempty
  have solidFirst : isBlank first = false := trimmed.1 first rfl
  have started : ∃ left, trimStart (front ++ first :: rest) = left ++ first :: rest := by
    rw [trimStart, List.dropWhile_append]
    split
    · exact ⟨[], List.dropWhile_cons_of_neg (by simp [solidFirst])⟩
    · exact ⟨_, rfl⟩
  obtain ⟨left, started⟩ := started
  refine ⟨left, ?_⟩
  rw [trim, started]
  refine trimEnd_eq_self ?_
  intro c last
  exact trimmed.2 c (by simpa [List.getLast?_append] using last)

end RequestLine.Text
