import RealTimeStreaming.Wire.Endpoint
import RealTimeStreaming.Wire.Frame

/-! Where media packets leave: as frames on the connection that also carries the
responses, or as datagrams of their own. A stream's delivery is fixed when it is set up;
the `Link` is the state that all deliveries of one client share. -/

namespace RealTimeStreaming

/-- A socket for datagrams. It may refuse any of them, by the number of the attempt. -/
structure DatagramSocket where
  refuse : (attempt : Nat) → Endpoint → Bytes → Option IoError := fun _ _ _ => none
  attempts : Nat := 0
  sent : Array (Endpoint × Bytes) := #[]

namespace DatagramSocket

/-- The longest payload of a datagram. -/
def maxPayload : Nat := 65507

/-- A host whose network carries datagrams up to their longest. -/
def connected : DatagramSocket where
  refuse _ _ packet := if maxPayload < packet.length then some .messageTooLong else none

/-- A host without a route to anywhere. A packet that no datagram can announce the length
of is refused before a route is sought. -/
def unrouted : DatagramSocket where
  refuse _ _ packet :=
    some (if 65535 < packet.length then .messageTooLong else .networkUnreachable)

def send (s : DatagramSocket) (destination : Endpoint) (packet : Bytes) :
    Except RtspError Nat × DatagramSocket :=
  match s.refuse s.attempts destination packet with
  | some e => (.error (.io e), { s with attempts := s.attempts + 1 })
  | none =>
    (.ok packet.length,
      { s with attempts := s.attempts + 1, sent := s.sent.push (destination, packet) })

end DatagramSocket

/-- What the streams and responses of one client write to. -/
structure Link where
  connection : Sink := {}
  datagrams : DatagramSocket := {}

inductive Delivery where
  | interleaved (channel : UInt8)
  | datagrams (destination : Endpoint)
deriving DecidableEq, Repr

namespace Delivery

def isInterleaved : Delivery → Bool
  | .interleaved _ => true
  | .datagrams _ => false

/-- Delivers one packet and gives the count of bytes put on the wire, a frame's header
included. Nothing is tried again. -/
def send (d : Delivery) (link : Link) (packet : Bytes) : Except RtspError Nat × Link :=
  match d with
  | .interleaved channel =>
    let (result, connection) := link.connection.sendFrame channel packet
    (result, { link with connection })
  | .datagrams destination =>
    let (result, socket) := link.datagrams.send destination packet
    (result, { link with datagrams := socket })

end Delivery

end RealTimeStreaming
