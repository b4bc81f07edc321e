import Mathlib.Data.List.TakeWhile
import RequestLine.Json.Reader

/-!
How far the lexemes reach into a text.  What is taken from the front of a text for a value is free of
equals signs or ends with a closing sign, and so it cannot end with an equals sign and plain letters.
-/

namespace RequestLine

/-- The text has no equals sign before what is left of it. -/
def FreeUpTo (text rest : List Char) : Prop :=
  ∃ taken, text = taken ++ rest ∧ '=' ∉ taken

theorem FreeUpTo.refl (text : List Char) : FreeUpTo text text :=
  ⟨[], rfl, by simp⟩

theorem FreeUpTo.trans {text middle rest : List Char} (first : FreeUpTo text middle)
    (last : FreeUpTo middle rest) : FreeUpTo text rest := by
  obtain ⟨front, rfl, free⟩ := first
  obtain ⟨back, rfl, following⟩ := last
  exact ⟨front ++ back, by simp, by simp [free, following]⟩

theorem FreeUpTo.cons {text rest : List Char} {c : Char} (sign : '=' ≠ c)
    (free : FreeUpTo text rest) : FreeUpTo (c :: text) rest := by
  obtain ⟨taken, rfl, absent⟩ := free
  exact ⟨c :: taken, rfl, by simp [sign, absent]⟩

theorem FreeUpTo.suffix {text rest : List Char} (free : FreeUpTo text rest) : rest <:+ text := by
  obtain ⟨taken, rfl, _⟩ := free
  exact List.suffix_append taken rest

namespace Numeral

theorem freeUpTo_digits {text digits rest : List Char} (read : digits? text = some (digits, rest)) :
    FreeUpTo text rest := by
  unfold digits? at read
  split at read
  · cases read
  · cases read
    refine ⟨text.takeWhile Char.isDigit, List.takeWhile_append_dropWhile.symm, ?_⟩
    intro member
    have digit := List.mem_takeWhile_imp member
    cases digit

theorem freeUpTo_whole {text digits rest : List Char} (read : whole? text = some (digits, rest)) :
    FreeUpTo text rest := by
  simp only [whole?, Option.bind_eq_bind, Option.bind_eq_some_iff] at read
  obtain ⟨⟨found, left⟩, taken, same⟩ := read
  split at same
  · cases same
  · cases same
    exact freeUpTo_digits taken

theorem freeUpTo_fraction {text digits rest : List Char}
    (read : fraction? text = some (digits, rest)) : FreeUpTo text rest := by
  unfold fraction? at read
  split at read
  · exact (freeUpTo_digits read).cons (by decide)
  · cases read
    exact .refl _

theorem freeUpTo_signedExponent {text rest : List Char} {exponent : Int}
    (read : signedExponent? text = some (exponent, rest)) : FreeUpTo text rest := by
  unfold signedExponent? at read
  split at read
  all_goals
    rw [Option.map_eq_some_iff] at read
    obtain ⟨⟨digits, left⟩, taken, same⟩ := read
    cases same
  · exact (freeUpTo_digits taken).cons (by decide)
  · exact (freeUpTo_digits taken).cons (by decide)
  · exact freeUpTo_digits taken

theorem freeUpTo_exponent {text rest : List Char} {exponent : Option Int}
    (read : exponent? text = some (exponent, rest)) : FreeUpTo text rest := by
  unfold exponent? at read
  split at read
  · rw [Option.map_eq_some_iff] at read
    obtain ⟨⟨found, left⟩, taken, same⟩ := read
    cases same
    exact (freeUpTo_signedExponent taken).cons (by decide)
  · rw [Option.map_eq_some_iff] at read
    obtain ⟨⟨found, left⟩, taken, same⟩ := read
    cases same
    exact (freeUpTo_signedExponent taken).cons (by decide)
  · cases read
    exact .refl _

theorem freeUpTo_read {text rest : List Char} {numeral : Numeral}
    (read : read? text = some (numeral, rest)) : FreeUpTo text rest := by
  simp only [read?, Option.bind_eq_bind, Option.bind_eq_some_iff, Option.pure_def] at read
  obtain ⟨⟨whole, afterWhole⟩, wholeRead, ⟨fraction, afterFraction⟩, fractionRead,
    ⟨exponent, afterExponent⟩, exponentRead, same⟩ := read
  cases same
  have unsigned := ((freeUpTo_whole wholeRead).trans (freeUpTo_fraction fractionRead)).trans
    (freeUpTo_exponent exponentRead)
  split at unsigned
  · exact unsigned.cons (by decide)
  · exact unsigned

end Numeral

namespace Json

/-- The signs with which strings, arrays and objects end. -/
def closings : List Char := ['"', ']', '}']

/-- What has been taken of the text is free of equals signs or ends with a closing sign. -/
def TakenUpTo (text rest : List Char) : Prop :=
  FreeUpTo text rest ∨ ∃ closing ∈ closings, closing :: rest <:+ text

theorem TakenUpTo.after {text middle rest : List Char} (first : FreeUpTo text middle)
    (last : TakenUpTo middle rest) : TakenUpTo text rest := by
  rcases last with free | closed
  · exact .inl (first.trans free)
  · obtain ⟨closing, member, suffix⟩ := closed
    exact .inr ⟨closing, member, suffix.trans first.suffix⟩

theorem TakenUpTo.suffix {text rest : List Char} (taken : TakenUpTo text rest) :
    rest <:+ text := by
  rcases taken with free | closed
  · exact free.suffix
  · obtain ⟨closing, _, suffix⟩ := closed
    exact (List.suffix_cons closing rest).trans suffix

theorem freeUpTo_skipSpace (text : List Char) : FreeUpTo text (skipSpace text) := by
  refine ⟨text.takeWhile isSpace, List.takeWhile_append_dropWhile.symm, ?_⟩
  intro member
  have space := List.mem_takeWhile_imp member
  cases space

theorem hexUnit?_suffix {text rest : List Char} {unit : Nat}
    (read : hexUnit? text = some (unit, rest)) : rest <:+ text := by
  unfold hexUnit? at read
  split at read
  · rename_i a b c d behind
    simp only [Option.bind_eq_bind, Option.bind_eq_some_iff, Option.pure_def] at read
    obtain ⟨_, _, _, _, _, _, _, _, same⟩ := read
    cases same
    exact List.suffix_append [a, b, c, d] rest
  · cases read

theorem hexEscape?_suffix {text rest : List Char} {c : Char}
    (read : hexEscape? text = some (c, rest)) : rest <:+ text := by
  simp only [hexEscape?, Option.bind_eq_bind, Option.bind_eq_some_iff] at read
  obtain ⟨⟨unit, behind⟩, first, read⟩ := read
  have inner := hexUnit?_suffix first
  dsimp only at read
  split at read
  · cases read
  · split at read
    · split at read
      · rename_i following
        rw [Option.bind_eq_some_iff] at read
        obtain ⟨⟨low, left⟩, second, same⟩ := read
        have later := hexUnit?_suffix second
        dsimp only at same
        split at same
        · rw [Option.pure_def, Option.some.injEq, Prod.mk.injEq] at same
          obtain ⟨_, rfl⟩ := same
          exact (later.trans (List.suffix_append ['\\', 'u'] following)).trans inner
        · cases same
      · cases read
    · cases read
      exact inner

theorem character?_tail {text rest : List Char} {c : Char}
    (read : character? text = some (c, rest)) : rest <:+ text.tail := by
  unfold character? at read
  split at read
  case h_9 behind => exact (hexEscape?_suffix read).trans (List.suffix_cons 'u' behind)
  case h_10 => cases read
  case h_11 =>
    split at read
    · cases read
    · cases read
      exact List.suffix_rfl
  case h_12 => cases read
  all_goals
    cases read
    exact List.suffix_cons _ rest

/-- What is taken ends with the closing quote, and is longer than the characters that it stands for. -/
theorem charactersWithin?_taken {limit : Nat} : ∀ {text characters rest : List Char},
    charactersWithin? limit text = some (characters, rest) →
      '"' :: rest <:+ text ∧ characters.length + rest.length < text.length := by
  induction limit with
  | zero =>
      intro text characters rest read
      unfold charactersWithin? at read
      split at read
      · cases read
        exact ⟨List.suffix_rfl, by simp⟩
      · cases read
      · contradiction
  | succ limit ih =>
      intro text characters rest read
      unfold charactersWithin? at read
      split at read
      · cases read
        exact ⟨List.suffix_rfl, by simp⟩
      · contradiction
      · rename_i less _ same _
        cases same
        simp only [Option.bind_eq_bind, Option.bind_eq_some_iff, Option.pure_def] at read
        obtain ⟨⟨c, behind⟩, first, ⟨others, left⟩, following, same⟩ := read
        obtain ⟨rfl, rfl⟩ := Prod.mk.inj (Option.some.inj same)
        have tail : behind <:+ _ := character?_tail first
        have fewer := tail.length_le
        have inner : charactersWithin? limit behind = some (others, left) := following
        obtain ⟨suffix, shorter⟩ := ih inner
        refine ⟨(suffix.trans tail).trans (List.tail_suffix _), ?_⟩
        rw [List.length_tail] at fewer
        change others.length + 1 + left.length < _
        omega

theorem string?_taken {text rest : List Char} {content : String}
    (read : string? text = some (content, rest)) :
    '"' :: rest <:+ text ∧ content.toList.length + rest.length < text.length := by
  simp only [string?, Option.bind_eq_bind, Option.bind_eq_some_iff, Option.pure_def] at read
  obtain ⟨⟨characters, left⟩, taken, same⟩ := read
  cases same
  rw [String.toList_ofList]
  exact charactersWithin?_taken taken

theorem string?_suffix {text rest : List Char} {content : String}
    (read : string? text = some (content, rest)) : '"' :: rest <:+ text :=
  (string?_taken read).1

theorem scalar?_taken {text rest : List Char} {value : Json}
    (read : scalar? text = some (value, rest)) : TakenUpTo text rest := by
  unfold scalar? at read
  split at read
  · cases read
    exact .inl ⟨['n', 'u', 'l', 'l'], rfl, by decide⟩
  · cases read
    exact .inl ⟨['t', 'r', 'u', 'e'], rfl, by decide⟩
  · cases read
    exact .inl ⟨['f', 'a', 'l', 's', 'e'], rfl, by decide⟩
  · rename_i behind
    simp only [Option.bind_eq_bind, Option.bind_eq_some_iff, Option.pure_def] at read
    obtain ⟨⟨content, left⟩, taken, same⟩ := read
    cases same
    exact .inr ⟨'"', by decide, (string?_suffix taken).trans (List.suffix_cons '"' behind)⟩
  · simp only [Option.bind_eq_bind, Option.bind_eq_some_iff, Option.pure_def] at read
    obtain ⟨⟨numeral, left⟩, taken, _, _, same⟩ := read
    cases same
    exact .inl (Numeral.freeUpTo_read taken)

theorem key?_suffix {text rest : List Char} {key : String} (read : key? text = some (key, rest)) :
    rest <:+ text := by
  unfold key? at read
  split at read
  · rename_i behind shape
    simp only [Option.bind_eq_bind, Option.bind_eq_some_iff] at read
    obtain ⟨⟨content, left⟩, taken, read⟩ := read
    dsimp only at read
    split at read
    · rename_i after colon
      cases read
      have spaces := (freeUpTo_skipSpace left).suffix
      have whole := (freeUpTo_skipSpace text).suffix
      rw [colon] at spaces
      rw [shape] at whole
      have quoted := (List.suffix_cons '"' left).trans (string?_suffix taken)
      exact ((((List.suffix_cons ':' rest).trans spaces).trans quoted).trans
        (List.suffix_cons '"' behind)).trans whole
    · cases read
  · cases read

end Json
end RequestLine
