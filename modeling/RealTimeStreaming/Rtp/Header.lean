import RealTimeStreaming.Text.Octet

/-! The fixed header of an RTP packet: twelve bytes, numbers with the high byte first. The
version is always two and is not a field. -/

namespace RealTimeStreaming.Rtp

open Octet (flag)

structure Header where
  padding : Bool := false
  extension : Bool := false
  csrcCount : UInt8 := 0
  marker : Bool
  payloadType : UInt8
  sequence : UInt16
  timestamp : UInt32
  ssrc : UInt32
deriving DecidableEq, Repr

def bytesOf16 (n : UInt16) : Bytes :=
  [(n >>> 8).toUInt8, n.toUInt8]

def bytesOf32 (n : UInt32) : Bytes :=
  [(n >>> 24).toUInt8, (n >>> 16).toUInt8, (n >>> 8).toUInt8, n.toUInt8]

def of16 (a b : UInt8) : UInt16 :=
  a.toUInt16 <<< 8 ||| b.toUInt16

def of32 (a b c d : UInt8) : UInt32 :=
  a.toUInt32 <<< 24 ||| b.toUInt32 <<< 16 ||| c.toUInt32 <<< 8 ||| d.toUInt32

namespace Header

def length : Nat := 12

/-- The CSRC count keeps four bits and the payload type seven. -/
def encode (h : Header) : Bytes :=
  [0x80 ||| flag h.padding 0x20 ||| flag h.extension 0x10 ||| (h.csrcCount &&& 0x0F),
    flag h.marker 0x80 ||| (h.payloadType &&& 0x7F)] ++
  bytesOf16 h.sequence ++ bytesOf32 h.timestamp ++ bytesOf32 h.ssrc

/-- Reads the header at the start, unless it is cut short or of another version. -/
def decode? : Bytes → Option Header
  | b0 :: b1 :: b2 :: b3 :: b4 :: b5 :: b6 :: b7 :: b8 :: b9 :: b10 :: b11 :: _ =>
    if b0 >>> 6 = 2 then
      some {
        padding := b0 &&& 0x20 != 0
        extension := b0 &&& 0x10 != 0
        csrcCount := b0 &&& 0x0F
        marker := b1 &&& 0x80 != 0
        payloadType := b1 &&& 0x7F
        sequence := of16 b2 b3
        timestamp := of32 b4 b5 b6 b7
        ssrc := of32 b8 b9 b10 b11 }
    else none
  | _ => none

@[simp] theorem length_encode (h : Header) : h.encode.length = length := rfl

end Header

end RealTimeStreaming.Rtp
