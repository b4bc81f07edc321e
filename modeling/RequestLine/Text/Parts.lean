/-!
The cutting of a line.  A bar between two spaces ends a part, and the first space of a part ends
its keyword.  Only U+0020 counts as a space here.
-/

namespace RequestLine.Text

/-- The text that stands between two parts. -/
def separator : List Char := [' ', '|', ' ']

/-- Whether every bar of `text` has exactly one space on each side, `farther` and `nearer` being
the two characters before `text`. -/
def barsSpacedAfter (farther nearer : Option Char) : List Char → Bool
  | [] => true
  | c :: rest =>
      (c != '|' ||
        (nearer == some ' ' && farther != some ' ' &&
          rest.head? == some ' ' && rest.tail.head? != some ' ')) &&
      barsSpacedAfter nearer (some c) rest

def barsSpaced (text : List Char) : Bool :=
  barsSpacedAfter none none text

/-- The parts between separators, cut from left to right: a space that ends one separator does
not begin the next. -/
def parts : List Char → List (List Char)
  | [] => [[]]
  | ' ' :: '|' :: ' ' :: rest => [] :: parts rest
  | c :: rest => (parts rest).modifyHead (c :: ·)

/-- The line whose parts are given. -/
def joinParts (pieces : List (List Char)) : List Char :=
  separator.intercalate pieces

/-- Whether two spaces stand side by side. -/
def hasDoubleSpace : List Char → Bool
  | ' ' :: ' ' :: _ => true
  | _ :: rest => hasDoubleSpace rest
  | [] => false

/-- The text before the first space and the text after it. -/
def splitKeyword? (text : List Char) : Option (List Char × List Char) :=
  match text.dropWhile (· != ' ') with
  | [] => none
  | _ :: value => some (text.takeWhile (· != ' '), value)

theorem parts_ne_nil (text : List Char) : parts text ≠ [] := by
  fun_induction parts text with
  | case1 => simp
  | case2 => simp
  | case3 c rest _ ih =>
      cases cut : parts rest with
      | nil => exact absurd cut ih
      | cons => simp

end RequestLine.Text
