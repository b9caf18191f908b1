import RealTimeStreaming.Rtp.Header
import RealTimeStreaming.Random.Source
import RealTimeStreaming.Rtp.Timestamp
import RealTimeStreaming.Wire.Delivery

/-! An RTP stream: it numbers its packets, stamps them and hands them to its delivery. The
sequence number goes up by one with every packet that was delivered and wraps; a packet
that failed does not use one up. -/

namespace RealTimeStreaming.Rtp

/-- Why a stream cannot be set up as asked. -/
inductive InvalidStream where
  /-- A payload type has seven bits. -/
  | payloadType
  /-- A fragment needs room behind its header. -/
  | maxUnitSize
deriving DecidableEq, Repr

def InvalidStream.message : InvalidStream → String
  | .payloadType => "RTP payload type is a 7-bit field"
  | .maxUnitSize => "max_unit_size must exceed the FU-A header"

/-- What one call asks a stream to send. -/
structure Sending where
  timestamp : Timestamp
  marker : Bool
  head : Bytes
  payload : Bytes
deriving DecidableEq, Repr

structure Sender where
  delivery : Delivery
  payloadType : UInt8
  clockRate : UInt32
  ssrc : UInt32
  /-- The number that the next packet carries. -/
  sequence : UInt16
  payloadType_lt : payloadType < 0x80

namespace Sender

/-- A stream with the given source and first sequence number. -/
def create (delivery : Delivery) (payloadType : UInt8) (clockRate ssrc : UInt32)
    (sequence : UInt16) : Except InvalidStream Sender :=
  if h : payloadType < 0x80 then
    .ok { delivery, payloadType, clockRate, ssrc, sequence, payloadType_lt := h }
  else .error .payloadType

/-- A stream whose source and first sequence number are drawn, in this order. -/
def drawn (delivery : Delivery) (payloadType : UInt8) (clockRate : UInt32)
    (h : payloadType < 0x80) (source : RandomSource) : Sender × RandomSource :=
  let (ssrc, source) := source.draw32
  let (sequence, source) := source.draw16
  ({ delivery, payloadType, clockRate, ssrc, sequence, payloadType_lt := h }, source)

/-- A stream with drawn numbers, unless its payload type is out of range. -/
def draw (delivery : Delivery) (payloadType : UInt8) (clockRate : UInt32)
    (source : RandomSource) : Except InvalidStream (Sender × RandomSource) :=
  if h : payloadType < 0x80 then .ok (drawn delivery payloadType clockRate h source)
  else .error .payloadType

/-- The header of the next packet. -/
def header (s : Sender) (timestamp : Timestamp) (marker : Bool) : Header where
  marker := marker
  payloadType := s.payloadType
  sequence := s.sequence
  timestamp := timestamp.toClock s.clockRate
  ssrc := s.ssrc

/-- The next packet: its header, a header of the payload format, and the payload. -/
def packet (s : Sender) (timestamp : Timestamp) (marker : Bool) (head payload : Bytes) : Bytes :=
  (s.header timestamp marker).encode ++ head ++ payload

/-- Sends the next packet and gives the count of bytes put on the wire. -/
def send (timestamp : Timestamp) (marker : Bool) (head payload : Bytes) :
    Sender × Link → Except RtspError Nat × Sender × Link
  | (s, link) =>
    match s.delivery.send link (s.packet timestamp marker head payload) with
    | (.ok sent, link) => (.ok sent, { s with sequence := s.sequence + 1 }, link)
    | (.error e, link) => (.error e, s, link)

def perform (x : Sending) : Sender × Link → Except RtspError Nat × Sender × Link :=
  send x.timestamp x.marker x.head x.payload

end Sender

/-- Performs sends in order until one fails. The counts of bytes add up. -/
def sendEach {α σ : Type} (send : α → σ → Except RtspError Nat × σ) (items : List α) (state : σ) :
    Except RtspError Nat × σ :=
  items.foldl
    (fun (total, state) item =>
      match total with
      | .error e => (.error e, state)
      | .ok sum =>
        match send item state with
        | (.ok sent, state) => (.ok (sum + sent), state)
        | (.error e, state) => (.error e, state))
    (.ok 0, state)

@[simp] theorem sendEach_nil {α σ : Type} (send : α → σ → Except RtspError Nat × σ) (state : σ) :
    sendEach send [] state = (.ok 0, state) := rfl

end RealTimeStreaming.Rtp
