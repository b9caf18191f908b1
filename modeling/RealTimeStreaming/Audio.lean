import RealTimeStreaming.Rtp.Sender
import RealTimeStreaming.Rtp.Slices

/-! Audio with one byte per sample. A packet carries as its timestamp the number of its
first sample; a packet that failed leaves its samples uncounted. -/

namespace RealTimeStreaming.Audio

/-- The rate of G.711 audio, in samples per second. -/
def clockRate : UInt32 := 8000

def payloadType : UInt8 := 0

structure AudioStream where
  rtp : Rtp.Sender
  samplesPerPacket : Nat
  /-- The number of the next sample, which the next packet is stamped with. -/
  nextSample : UInt32 := 0

namespace AudioStream

/-- Sends one packet of samples. -/
def sendPacket (samples : Bytes) :
    AudioStream × Link → Except RtspError Nat × AudioStream × Link
  | (s, link) =>
    match Rtp.Sender.send (.raw s.nextSample) false [] samples (s.rtp, link) with
    | (.ok sent, rtp, link) =>
      (.ok sent, { s with rtp, nextSample := s.nextSample + samples.length.toUInt32 }, link)
    | (.error e, rtp, link) => (.error e, { s with rtp }, link)

/-- Sends samples packet by packet until one fails; the last packet may be short. -/
def sendSamples (samples : Bytes) :
    AudioStream × Link → Except RtspError Nat × AudioStream × Link
  | (s, link) => Rtp.sendEach sendPacket (slices s.samplesPerPacket samples) (s, link)

end AudioStream

end RealTimeStreaming.Audio
