import RealTimeStreaming.Text.Number
import RealTimeStreaming.Text.Trim

/-! Addresses of hosts, in four bytes or in eight groups of sixteen bits, with their
reading from text and their shortest text. -/

namespace RealTimeStreaming

inductive Host where
  | v4 (a b c d : UInt8)
  | v6 (groups : Vector UInt16 8)
deriving DecidableEq, Repr

namespace Host

def loopback : Host := .v4 127 0 0 1

/-! ### Writing -/

def v4Text (a b c d : UInt8) : String :=
  s!"{a}.{b}.{c}.{d}"

/-- A group in hexadecimal, without leading zeros. -/
def groupText (g : UInt16) : String :=
  String.ofList (Nat.toDigits 16 g.toNat)

def groupsText (groups : List UInt16) : String :=
  String.intercalate ":" (groups.map groupText)

/-- How many zero groups stand at the start. -/
def zeroRun (groups : List UInt16) : Nat :=
  (groups.takeWhile (· == 0)).length

/-- Start and length of the longest run of zero groups, the first of several. -/
def longestZeroRun (groups : List UInt16) : Nat × Nat :=
  (List.range groups.length).foldl
    (fun best i =>
      let n := zeroRun (groups.drop i)
      if best.2 < n then (i, n) else best)
    (0, 0)

/-- Zero groups are left out where two or more stand together; an address that embeds one
of four bytes ends in its text. -/
def v6Text (groups : List UInt16) : String :=
  match groups with
  | [0, 0, 0, 0, 0, 0xFFFF, g, h] =>
    "::ffff:" ++ v4Text (g >>> 8).toUInt8 g.toUInt8 (h >>> 8).toUInt8 h.toUInt8
  | groups =>
    let (i, n) := longestZeroRun groups
    if n < 2 then groupsText groups
    else groupsText (groups.take i) ++ "::" ++ groupsText (groups.drop (i + n))

def text : Host → String
  | .v4 a b c d => v4Text a b c d
  | .v6 groups => v6Text groups.toList

/-! ### Reading -/

/-- One of the four numbers: up to three digits, without a leading zero. -/
def readByte? (cs : List Char) : Option UInt8 :=
  if cs.length ≤ 3 ∧ cs.all Char.isDigit ∧ (cs.head? ≠ some '0' ∨ cs.length = 1) then
    (Text.readUInt8 cs).toOption
  else none

def readV4? (cs : List Char) : Option (UInt8 × UInt8 × UInt8 × UInt8) :=
  match (cs.splitOn '.').map readByte? with
  | [some a, some b, some c, some d] => some (a, b, c, d)
  | _ => none

def hexValue? (c : Char) : Option Nat :=
  if c.isDigit then some (c.toNat - '0'.toNat)
  else if 'a' ≤ c.toLower ∧ c.toLower ≤ 'f' then some (c.toLower.toNat - 'a'.toNat + 10)
  else none

/-- A group of one to four hexadecimal digits. -/
def readGroup? (cs : List Char) : Option UInt16 :=
  if cs.isEmpty ∨ 4 < cs.length then none
  else (cs.foldlM (fun n c => (hexValue? c).map (n * 16 + ·)) 0).map Nat.toUInt16

/-- Groups between colons, of which the last two may be written as four bytes. -/
def readGroups? (embedded : Bool) : List (List Char) → Option (List UInt16)
  | [] => some []
  | [last] =>
    match readGroup? last, readV4? last with
    | some g, _ => some [g]
    | none, some (a, b, c, d) =>
      if embedded then
        some [a.toUInt16 <<< 8 ||| b.toUInt16, c.toUInt16 <<< 8 ||| d.toUInt16]
      else none
    | none, none => none
  | first :: rest => do return (← readGroup? first) :: (← readGroups? embedded rest)

/-- The text on both sides of the first two colons in a row. -/
def cutAtGap : List Char → Option (List Char × List Char)
  | ':' :: ':' :: rest => some ([], rest)
  | c :: rest => (cutAtGap rest).map fun (before, after) => (c :: before, after)
  | [] => none

def pieces (cs : List Char) : List (List Char) :=
  if cs.isEmpty then [] else cs.splitOn ':'

def ofGroups? (groups : List UInt16) : Option Host :=
  if h : groups.length = 8 then some (.v6 ⟨groups.toArray, by simp [h]⟩) else none

/-- Two colons stand for one zero group or more. -/
def readV6? (cs : List Char) : Option Host :=
  match cutAtGap cs with
  | none => do ofGroups? (← readGroups? true (pieces cs))
  | some (before, after) => do
    let head ← readGroups? false (pieces before)
    let tail ← readGroups? true (pieces after)
    if head.length + tail.length < 8 then
      ofGroups? (head ++ List.replicate (8 - head.length - tail.length) 0 ++ tail)
    else none

/-- The number of a network zone: digits only, leading zeros included. -/
def readZone? (cs : List Char) : Option UInt32 :=
  if cs.all Char.isDigit then (Text.readUInt32 cs).toOption else none

/-- An address in groups with the zone that a percent sign adds; without one the zone is
zero. -/
def readZonedV6? (cs : List Char) : Option (Host × UInt32) :=
  match Text.cutAt '%' cs with
  | none => (readV6? cs).map (·, 0)
  | some (groups, zone) => do return (← readV6? groups, ← readZone? zone)

end Host

end RealTimeStreaming
