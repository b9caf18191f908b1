/-! Decimal numbers in text. A number is an optional sign and ASCII digits, as many as one
likes, with a value inside the range that the reader asks for. The digits are read from
the left and the first fault decides the error, so a number that is too large before its
first letter is reported as too large. -/

namespace RealTimeStreaming.Text

/-- Why a text is not a number of the asked range. -/
inductive NumberError where
  | empty
  | invalidDigit
  | tooLarge
  | tooSmall
deriving DecidableEq, Repr

def NumberError.message : NumberError → String
  | .empty => "cannot parse integer from empty string"
  | .invalidDigit => "invalid digit found in string"
  | .tooLarge => "number too large to fit in target type"
  | .tooSmall => "number too small to fit in target type"

/-- Reads digits on to `value`, which may grow up to `max`. -/
def readDigits (max : Nat) (value : Nat) : List Char → Except NumberError Nat
  | [] => .ok value
  | c :: rest =>
    if c.isDigit then
      let next := value * 10 + (c.toNat - '0'.toNat)
      if next ≤ max then readDigits max next rest else .error .tooLarge
    else .error .invalidDigit

/-- A number from 0 to `max`, with or without a plus sign. -/
def readNat (max : Nat) : List Char → Except NumberError Nat
  | [] => .error .empty
  | ['+'] => .error .invalidDigit
  | '+' :: digits => readDigits max 0 digits
  | digits => readDigits max 0 digits

/-- A number from `-below` to `above`, with or without a sign. -/
def readInt (below above : Nat) : List Char → Except NumberError Int
  | ['-'] => .error .invalidDigit
  | '-' :: digits =>
    match readDigits below 0 digits with
    | .ok n => .ok (-n)
    | .error .tooLarge => .error .tooSmall
    | .error e => .error e
  | text => (readNat above text).map Int.ofNat

def readUInt8 (cs : List Char) : Except NumberError UInt8 :=
  (readNat (UInt8.size - 1) cs).map Nat.toUInt8

def readUInt16 (cs : List Char) : Except NumberError UInt16 :=
  (readNat (UInt16.size - 1) cs).map Nat.toUInt16

def readUInt32 (cs : List Char) : Except NumberError UInt32 :=
  (readNat (UInt32.size - 1) cs).map Nat.toUInt32

def readUInt64 (cs : List Char) : Except NumberError UInt64 :=
  (readNat (UInt64.size - 1) cs).map Nat.toUInt64

/-- The two spellings of a truth value. -/
def readBool : List Char → Option Bool
  | ['t', 'r', 'u', 'e'] => some true
  | ['f', 'a', 'l', 's', 'e'] => some false
  | _ => none

end RealTimeStreaming.Text
