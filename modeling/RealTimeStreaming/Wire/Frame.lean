import RealTimeStreaming.Wire.Sink

/-! Interleaved frames: a dollar sign, the channel, the payload length in 16 bits with the
high byte first, and the payload. -/

namespace RealTimeStreaming.Frame

/-- The first byte of every frame. -/
def marker : UInt8 := 0x24

def headerLength : Nat := 4

/-- The header of a frame, if the payload's length fits into it. -/
def header (channel : UInt8) (length : Nat) : Except RtspError Bytes :=
  if length < 65536 then .ok [marker, channel, (length / 256).toUInt8, length.toUInt8]
  else .error (.frameTooLarge length)

/-- A whole frame. -/
def encode (channel : UInt8) (payload : Bytes) : Except RtspError Bytes :=
  (header channel payload.length).map (· ++ payload)

/-- The channel and payload length of the frame that starts here, once its header is
there. -/
def readHeader? : Bytes → Option (UInt8 × Nat)
  | first :: channel :: high :: low :: _ =>
    if first = marker then some (channel, high.toNat * 256 + low.toNat) else none
  | _ => none

/-- Whether a frame starts here. -/
def starts (bytes : Bytes) : Bool :=
  bytes.head? == some marker

theorem readHeader?_header {channel : UInt8} {length : Nat} {h : Bytes}
    (hh : header channel length = .ok h) (rest : Bytes) :
    readHeader? (h ++ rest) = some (channel, length) := by
  unfold header at hh
  split at hh
  · cases hh
    simp only [List.cons_append, List.nil_append, readHeader?, if_true, Option.some.injEq,
      Prod.mk.injEq, true_and, Nat.toUInt8_eq, UInt8.toNat_ofNat']
    omega
  · cases hh

end RealTimeStreaming.Frame

namespace RealTimeStreaming.Sink

/-- Writes a payload as one frame and gives the length of the frame. -/
def sendFrame (s : Sink) (channel : UInt8) (payload : Bytes) : Except RtspError Nat × Sink :=
  match Frame.encode channel payload with
  | .error e => (.error e, s)
  | .ok frame =>
    match s.write frame with
    | (.ok (), s) => (.ok frame.length, s)
    | (.error e, s) => (.error (.io e), s)

theorem sendFrame_of_encode {channel : UInt8} {payload frame : Bytes}
    (h : Frame.encode channel payload = .ok frame) (s : Sink) :
    s.sendFrame channel payload =
      (((s.write frame).1.map fun _ => frame.length).mapError .io, (s.write frame).2) := by
  rw [sendFrame, h]
  rcases hw : s.write frame with ⟨⟨error⟩ | ⟨⟩, t⟩ <;> simp only [hw] <;> rfl

end RealTimeStreaming.Sink
