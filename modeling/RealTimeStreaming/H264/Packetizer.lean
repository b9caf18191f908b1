import RealTimeStreaming.H264.Nal
import RealTimeStreaming.Rtp.Sender
import RealTimeStreaming.Rtp.Slices

/-! NAL units as RTP payloads. A unit up to a given size goes out whole; a larger one is
cut into fragments, each behind a two-byte header that repeats the unit's importance and
type and marks the first and the last fragment. The marker is set on the last packet of a
unit that carries a picture. -/

namespace RealTimeStreaming.H264

/-- One RTP payload, with the header of its format. -/
structure Payload where
  marker : Bool
  head : Bytes
  content : Bytes
deriving DecidableEq, Repr

/-- The unit type of a fragment. -/
def fragmentType : UInt8 := 28

def fragmentHeadLength : Nat := 2

/-- The two bytes before a fragment. -/
def fragmentHead (unit : NalUnit) (isFirst isLast : Bool) : Bytes :=
  [(unit.header.toByte &&& 0xE0) ||| fragmentType,
    Octet.flag isFirst 0x80 ||| Octet.flag isLast 0x40 ||| unit.header.unitType]

def fragments (maxUnitSize : Nat) (unit : NalUnit) : List Payload :=
  let room := maxUnitSize - fragmentHeadLength
  let count := (unit.payload.length + room - 1) / room
  (slices room unit.payload).zipIdx.map fun (piece, i) =>
    let isLast := i + 1 == count
    { marker := unit.header.isCodedSlice && isLast
      head := fragmentHead unit (i == 0) isLast
      content := piece }

/-- The payloads that carry a unit. -/
def packetize (maxUnitSize : Nat) (unit : NalUnit) : List Payload :=
  if unit.bytes.length ≤ maxUnitSize then
    [{ marker := unit.header.isCodedSlice, head := [], content := unit.bytes }]
  else fragments maxUnitSize unit

/-- An RTP stream that carries NAL units. -/
structure NalSender where
  rtp : Rtp.Sender
  /-- The size up to which a unit goes out whole. -/
  maxUnitSize : Nat
  headLength_lt : fragmentHeadLength < maxUnitSize

namespace NalSender

def defaultMaxUnitSize : Nat := 1200

def create (rtp : Rtp.Sender) (maxUnitSize : Nat) : Except Rtp.InvalidStream NalSender :=
  if h : fragmentHeadLength < maxUnitSize then
    .ok { rtp, maxUnitSize, headLength_lt := h }
  else .error .maxUnitSize

def ofRtp (rtp : Rtp.Sender) : NalSender :=
  { rtp, maxUnitSize := defaultMaxUnitSize, headLength_lt := by decide }

/-- Sends one unit, in several packets if it is large, and gives the count of bytes put on
the wire by all of them. -/
def send (timestamp : Rtp.Timestamp) (unit : NalUnit) :
    NalSender × Link → Except RtspError Nat × NalSender × Link
  | (s, link) =>
    let (result, rtp, link) :=
      Rtp.sendEach (fun p => Rtp.Sender.send timestamp p.marker p.head p.content)
        (packetize s.maxUnitSize unit) (s.rtp, link)
    (result, { s with rtp }, link)

end NalSender

end RealTimeStreaming.H264
