import RealTimeStreaming.Text.Blank
import RealTimeStreaming.Text.Number

/-! The `Transport` header, by which a client asks how media shall reach it. Of several
transports only the first, up to the comma, counts. Its parts are set apart by semicolons
and blanks around them do not matter; parts of unknown kind are passed over. -/

namespace RealTimeStreaming

/-- How packets travel. -/
inductive LowerTransport where
  /-- As frames on the connection itself. -/
  | tcp
  /-- As datagrams. -/
  | udp
deriving DecidableEq, Repr

/-- Two channels or two ports: the first for media, the second for reports on it. -/
structure MediaPair (α : Type) where
  media : α
  control : α
deriving DecidableEq, Repr

structure TransportHeader where
  lower : LowerTransport
  unicast : Bool := true
  channels : Option (MediaPair UInt8) := none
  ports : Option (MediaPair UInt16) := none
deriving DecidableEq, Repr

namespace TransportHeader

/-- The protocol and profile, in any case. Datagrams are meant when neither is named. -/
def readLower? (part : List Char) : Option LowerTransport :=
  let name := String.ofList (part.map Char.toUpper)
  if name = "RTP/AVP" ∨ name = "RTP/AVP/UDP" then some .udp
  else if name = "RTP/AVP/TCP" then some .tcp
  else none

/-- Reads `a-b`, or a lone `a` that stands for itself and its successor. No number goes
beyond `max`. -/
def readPair? (max : Nat) (text : List Char) : Option (MediaPair Nat) :=
  match Text.cutAt '-' text with
  | some (first, second) =>
    match Text.readNat max (Text.trimBlanks first), Text.readNat max (Text.trimBlanks second) with
    | .ok media, .ok control => some ⟨media, control⟩
    | _, _ => none
  | none =>
    match Text.readNat max (Text.trimBlanks text) with
    | .ok media => if media < max then some ⟨media, media + 1⟩ else none
    | .error _ => none

def channelsStart : List Char := "interleaved=".toList

def portsStart : List Char := "client_port=".toList

/-- Takes one part after the first into account; of parts of one kind the last counts. A
pair that cannot be read spoils the header. -/
def addPart (t : TransportHeader) (part : List Char) : Option TransportHeader :=
  let name := String.ofList part
  if Text.sameUpToCase name "multicast" then some { t with unicast := false }
  else if Text.sameUpToCase name "unicast" then some { t with unicast := true }
  else
    match Text.afterStart? channelsStart part with
    | some value =>
      (readPair? (UInt8.size - 1) value).map fun pair =>
        { t with channels := some ⟨pair.media.toUInt8, pair.control.toUInt8⟩ }
    | none =>
      match Text.afterStart? portsStart part with
      | some value =>
        (readPair? (UInt16.size - 1) value).map fun pair =>
          { t with ports := some ⟨pair.media.toUInt16, pair.control.toUInt16⟩ }
      | none => some t

/-- The trimmed parts of the first transport. -/
def parts (value : String) : List (List Char) :=
  ((value.toList.takeWhile (· != ',')).splitOn ';').map Text.trimBlanks

def read? (value : String) : Option TransportHeader :=
  match parts value with
  | [] => none
  | first :: rest => do rest.foldlM addPart { lower := ← readLower? first }

end TransportHeader

end RealTimeStreaming
