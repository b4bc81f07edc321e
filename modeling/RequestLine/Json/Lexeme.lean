import RequestLine.Json.Numeral
import RequestLine.Text.Hex

/-!
The lexemes of JSON text: strings, and the other values that are neither arrays nor objects.  A
lexeme is taken from the front of a text, and what follows is returned.
-/

namespace RequestLine.Json

abbrev Lexeme (α : Type) := List Char → Option (α × List Char)

def isSpace (c : Char) : Bool :=
  c == ' ' || c == '\t' || c == '\n' || c == '\r'

def skipSpace (text : List Char) : List Char :=
  text.dropWhile isSpace

/-- The number that four hexadecimal digits stand for. -/
def hexUnit? : Lexeme Nat
  | a :: b :: c :: d :: rest => do
      let upper := (← Text.hexDigit? a) * 16 + (← Text.hexDigit? b)
      let lower := (← Text.hexDigit? c) * 16 + (← Text.hexDigit? d)
      return (upper * 256 + lower, rest)
  | _ => none

def isHighSurrogate (unit : Nat) : Bool :=
  0xD800 ≤ unit && unit ≤ 0xDBFF

def isLowSurrogate (unit : Nat) : Bool :=
  0xDC00 ≤ unit && unit ≤ 0xDFFF

/-- The character of an escape in hexadecimal digits, after its letter: a high surrogate has to
be followed by the escape of a low one, and a low one does not stand alone. -/
def hexEscape? (text : List Char) : Option (Char × List Char) := do
  let (unit, rest) ← hexUnit? text
  if isLowSurrogate unit then
    none
  else if isHighSurrogate unit then
    match rest with
    | '\\' :: 'u' :: rest =>
        let (low, rest) ← hexUnit? rest
        if isLowSurrogate low then
          return (Char.ofNat (0x10000 + (unit - 0xD800) * 0x400 + (low - 0xDC00)), rest)
        else
          none
    | _ => none
  else
    return (Char.ofNat unit, rest)

/-- The next character of a string. -/
def character? : Lexeme Char
  | '\\' :: '"' :: rest => some ('"', rest)
  | '\\' :: '\\' :: rest => some ('\\', rest)
  | '\\' :: '/' :: rest => some ('/', rest)
  | '\\' :: 'b' :: rest => some ('\x08', rest)
  | '\\' :: 'f' :: rest => some ('\x0c', rest)
  | '\\' :: 'n' :: rest => some ('\n', rest)
  | '\\' :: 'r' :: rest => some ('\r', rest)
  | '\\' :: 't' :: rest => some ('\t', rest)
  | '\\' :: 'u' :: rest => hexEscape? rest
  | '\\' :: _ => none
  | c :: rest => if c < ' ' then none else some (c, rest)
  | [] => none

/-- The characters up to the closing quote, `limit` of them at most. -/
def charactersWithin? : Nat → Lexeme (List Char)
  | _, '"' :: rest => some ([], rest)
  | 0, _ => none
  | limit + 1, text => do
      let (c, rest) ← character? text
      let (others, rest) ← charactersWithin? limit rest
      return (c :: others, rest)

/-- A string after its opening quote. -/
def string? : Lexeme String := fun text => do
  let (characters, rest) ← charactersWithin? text.length text
  return (.ofList characters, rest)

/-- A value that is neither an array nor an object. -/
def scalar? : Lexeme Json
  | 'n' :: 'u' :: 'l' :: 'l' :: rest => some (.null, rest)
  | 't' :: 'r' :: 'u' :: 'e' :: rest => some (.bool true, rest)
  | 'f' :: 'a' :: 'l' :: 's' :: 'e' :: rest => some (.bool false, rest)
  | '"' :: rest => do
      let (text, rest) ← string? rest
      return (.string text, rest)
  | text => do
      let (numeral, rest) ← Numeral.read? text
      return (← numeral.value?, rest)

end RequestLine.Json
