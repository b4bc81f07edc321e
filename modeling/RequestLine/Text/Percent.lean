import RequestLine.Text.Hex

/-!
Percent encoding of a component of a URL: an unreserved character stands for itself, any other
is written as its UTF-8 bytes, each a percent sign and two upper-case hexadecimal digits.
-/

namespace RequestLine.Text

/-- The characters that a component may hold as they are. -/
def isUnreserved (c : Char) : Bool :=
  c.isAlphanum || ['-', '_', '.', '!', '~', '*', '\'', '(', ')'].contains c

def percentByte (byte : UInt8) : List Char :=
  ['%', upperHexDigit (byte.toNat / 16), upperHexDigit (byte.toNat % 16)]

def percentCharacter (c : Char) : List Char :=
  if isUnreserved c then [c] else (String.utf8EncodeChar c).flatMap percentByte

def percentEncode (text : List Char) : List Char :=
  text.flatMap percentCharacter

/-- The bytes that a text stands for; a percent sign needs two digits after it. -/
def percentBytes? : List Char → Option (List UInt8)
  | [] => some []
  | '%' :: high :: low :: rest => do
      let byte := (← hexDigit? high) * 16 + (← hexDigit? low)
      return byte.toUInt8 :: (← percentBytes? rest)
  | c :: rest => do
      if c = '%' then none
      else return String.utf8EncodeChar c ++ (← percentBytes? rest)

/-- The text whose UTF-8 bytes are written with percent signs. -/
def percentDecode? (text : List Char) : Option String := do
  String.fromUTF8? (← percentBytes? text).toByteArray

end RequestLine.Text
