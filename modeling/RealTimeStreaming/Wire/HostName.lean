import RealTimeStreaming.Wire.Error
import RealTimeStreaming.Wire.Host

/-! What a host may be called where its address is asked for: an address in one of its looser
spellings, the name of the machine itself, or a name that only a name service can tell. -/

namespace RealTimeStreaming.HostName

/-! ### Addresses as one to four numbers -/

/-- A number of one digit or more, below 2^32. -/
def readRadix? (radix : Nat) (cs : List Char) : Option Nat :=
  if cs.isEmpty then none
  else
    cs.foldlM
      (fun n c => do
        let digit ← Host.hexValue? c
        let next := n * radix + digit
        if digit < radix ∧ next < UInt32.size then some next else none)
      0

/-- Hexadecimal after `0x`, octal after another `0`, else decimal. -/
def readPart? : List Char → Option Nat
  | '0' :: 'x' :: digits => readRadix? 16 digits
  | '0' :: 'X' :: digits => readRadix? 16 digits
  | '0' :: digits => readRadix? 8 ('0' :: digits)
  | digits => readRadix? 10 digits

/-- The value of `room` bytes given by parts: every part is a byte, and the last one fills
the bytes that are left. -/
def joinParts? : (room : Nat) → List Nat → Option Nat
  | 0, _ => none
  | _ + 1, [] => none
  | room + 1, [last] => if last < 256 ^ (room + 1) then some last else none
  | room + 1, first :: rest =>
    if first < 256 then (joinParts? room rest).map (first * 256 ^ room + ·) else none

/-- The address of four bytes with the given value, the first byte highest. -/
def v4OfNat (n : Nat) : Host :=
  .v4 (n >>> 24).toUInt8 (n >>> 16).toUInt8 (n >>> 8).toUInt8 n.toUInt8

/-- An address of one to four parts between dots. -/
def readLooseV4? (cs : List Char) : Option Host := do
  let parts ← (cs.splitOn '.').mapM readPart?
  return v4OfNat (← joinParts? 4 parts)

/-! ### Names -/

def isLabelChar (c : Char) : Bool :=
  c.isAlphanum || c == '-' || c == '_'

/-- What may stand between the dots of a name. -/
def isLabel (cs : List Char) : Bool :=
  !cs.isEmpty && cs.length ≤ 63 && cs.all isLabelChar

/-- A name as it stands before the dot that may end it. -/
def dropFinalDot (cs : List Char) : List Char :=
  if cs.getLast? = some '.' then cs.dropLast else cs

/-- Names that a name service can be asked for: labels between dots, 253 characters at
most, without a hyphen at the start. The root is a lone dot. -/
def isDomainName (cs : List Char) : Bool :=
  let name := dropFinalDot cs
  cs == ['.'] ||
    ((name.splitOn '.').all isLabel && name.length ≤ 253 && name.head? != some '-')

/-- The name that every machine has for itself, in any ASCII case. -/
def isLocal (cs : List Char) : Bool :=
  cs.map Char.toLower == "localhost".toList

/-- The address that a name stands for, with its zone, of those known without asking
anyone. -/
def lookup (name : List Char) : Except IoError (Host × UInt32) :=
  if name.contains '\x00' then .error .nulInName
  else
    match readLooseV4? name, Host.readZonedV6? name with
    | some host, _ => .ok (host, 0)
    | none, some found => .ok found
    | none, none =>
      if isLocal name then .ok (.loopback, 0)
      else if isDomainName name then .error .nameServiceSilent
      else .error .unknownHost

end RealTimeStreaming.HostName
