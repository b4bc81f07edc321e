/-! The settings of the service, from texts that are looked up by name. -/

namespace RequestLine

structure Settings where
  host : String := "127.0.0.1"
  port : Nat := 3000
  /-- How many milliseconds a call may take, if there is a limit. -/
  timeout : Option Nat := none
deriving DecidableEq, Repr

/-- The setting `name` has a text that stands for none of its values. -/
structure SettingError where
  name : String
  value : String
deriving DecidableEq, Repr

def SettingError.message (error : SettingError) : String :=
  s!"invalid {error.name}: {error.value}"

/-- The number with one more digit behind it, as long as that is below `bound`. -/
def appendDigit? (bound number : Nat) (digit : Char) : Option Nat :=
  if digit.isDigit then
    let next := Nat.ofDigitChars 10 [digit] number
    if next < bound then some next else none
  else
    none

/-- The number below `bound` that a text stands for: digits, with a plus sign before them or
without.  They are taken one by one, up to the first that carries the number beyond. -/
def naturalBelow? (bound : Nat) (text : String) : Option Nat :=
  let digits := match text.toList with
    | '+' :: rest => rest
    | rest => rest
  if digits.isEmpty then none else digits.foldlM (appendDigit? bound) 0

namespace Settings

/-- The value of a number that may be left out. -/
def lookupNatural (lookup : String → Option String) (name : String) (bound : Nat) :
    Except SettingError (Option Nat) :=
  match lookup name with
  | none => .ok none
  | some value =>
      match naturalBelow? bound value with
      | none => .error ⟨name, value⟩
      | some number => .ok (some number)

/-- The port is looked at before the timeout. -/
def ofLookup (lookup : String → Option String) : Except SettingError Settings := do
  let port ← lookupNatural lookup "PORT" UInt16.size
  let timeout ← lookupNatural lookup "REQLINE_TIMEOUT_MS" UInt64.size
  let defaults : Settings := {}
  return {
    host := (lookup "HOST").getD defaults.host
    port := port.getD defaults.port
    timeout }

def address (settings : Settings) : String :=
  s!"{settings.host}:{settings.port}"

end Settings
end RequestLine
