import RealTimeStreaming.Wire.HostName

/-! Network endpoints: a host and a port. In text an address with groups stands in
brackets, so that its colons are told from the one before the port. -/

namespace RealTimeStreaming

structure Endpoint where
  host : Host
  port : UInt16
  /-- The network zone that an address in groups belongs to; zero names none. -/
  zone : UInt32 := 0
deriving DecidableEq, Repr

namespace Endpoint

def zoneText (zone : UInt32) : String :=
  if zone = 0 then "" else s!"%{zone}"

def text (e : Endpoint) : String :=
  match e.host with
  | .v4 a b c d => s!"{Host.v4Text a b c d}:{e.port}"
  | .v6 groups => s!"[{Host.v6Text groups.toList}{zoneText e.zone}]:{e.port}"

/-- A port in digits only, leading zeros included. -/
def readPort? (cs : List Char) : Option UInt16 :=
  if cs.all Char.isDigit then (Text.readUInt16 cs).toOption else none

/-- A host as it stands before the port. -/
def readHost? (cs : List Char) : Option (Host × UInt32) :=
  match Text.afterStart? ['['] cs with
  | some inner =>
    if inner.getLast? = some ']' then Host.readZonedV6? inner.dropLast else none
  | none => (Host.readV4? cs).map fun (a, b, c, d) => (.v4 a b c d, 0)

/-- The text before the last colon and the text after it. -/
def cutPort (address : String) : Option (List Char × List Char) :=
  (Text.cutAt ':' address.toList.reverse).map fun (port, host) => (host.reverse, port.reverse)

/-- An endpoint in its own notation, names left out. -/
def read? (address : String) : Option Endpoint := do
  let (host, port) ← cutPort address
  let (host, zone) ← readHost? host
  return { host, zone, port := ← readPort? port }

/-- The endpoint that a name and a port ask for; the port may have a plus sign. -/
def resolveName (address : String) : Except IoError Endpoint :=
  match cutPort address with
  | none => .error .invalidSocketAddress
  | some (name, port) =>
    match Text.readUInt16 port with
    | .error _ => .error .invalidPort
    | .ok port => (HostName.lookup name).map fun (host, zone) => { host, port, zone }

/-- The endpoint that an address text asks for: its own notation goes before names. -/
def resolve (address : String) : Except IoError Endpoint :=
  match read? address with
  | some e => .ok e
  | none => resolveName address

end Endpoint

end RealTimeStreaming
