import RealTimeStreaming.Arithmetic
import RealTimeStreaming.Audio
import RealTimeStreaming.H264.Video

/-! The media that the demo server plays to every client: G.711 audio, H.264 video, or
both. A stream plays its whole file, step by step, until it is told to stop or a packet
fails. -/

namespace RealTimeStreaming.Demo

structure Media where
  audio : Option Bytes := none
  /-- A byte stream of NAL units with a delimiter before each picture. -/
  video : Option Bytes := none
  /-- Pictures per second. -/
  frameRate : UInt32 := 25
  samplesPerPacket : UInt64 := 160

inductive StreamKind where
  | audio
  | video
deriving DecidableEq, Repr

namespace StreamKind

/-- The audio stream is the one asked for by a path that ends in `/audio`, slashes after
it aside; any other path means the video stream. -/
def ofUri (uri : String) : StreamKind :=
  let path := Text.trimEnd (· == '/') uri.toList
  if "/audio".toList.isSuffixOf path then .audio else .video

def payloadType : StreamKind → UInt8
  | .audio => Audio.payloadType
  | .video => H264.payloadType

def clockRate : StreamKind → UInt32
  | .audio => Audio.clockRate
  | .video => H264.clockRate

theorem payloadType_lt (kind : StreamKind) : kind.payloadType < 0x80 := by
  cases kind <;> decide

end StreamKind

namespace Media

def file (m : Media) : StreamKind → Option Bytes
  | .audio => m.audio
  | .video => m.video

def has (m : Media) (kind : StreamKind) : Bool :=
  (m.file kind).isSome

/-- How long a packet of audio plays, in microseconds. The product is a word before the division. -/
def packetInterval? (arithmetic : Arithmetic) (m : Media) : Option Nat :=
  (arithmetic.word? (m.samplesPerPacket.toNat * 1000000)).map fun product =>
    product.toNat / Audio.clockRate.toNat

/-- How long a picture is shown, in microseconds. -/
def pictureInterval (m : Media) : Nat :=
  1000000 / m.frameRate.toNat

end Media

/-- Performs steps in order until one fails or `stopped` holds before a step; steps are
counted from zero. -/
def paced {α σ : Type} (stopped : Nat → Bool) (send : α → σ → Except RtspError Nat × σ) :
    (count : Nat) → List α → σ → Except RtspError Unit × σ
  | _, [], state => (.ok (), state)
  | count, item :: rest, state =>
    if stopped count then (.ok (), state)
    else
      match send item state with
      | (.ok _, state) => paced stopped send (count + 1) rest state
      | (.error e, state) => (.error e, state)

namespace Media

/-- Plays the audio file, a packet at each step, if the machine does not stop at the interval
between them, which comes first. -/
def playAudio (arithmetic : Arithmetic) (m : Media) (stopped : Nat → Bool) (rtp : Rtp.Sender)
    (link : Link) : Option (Except RtspError Unit × Audio.AudioStream × Link) :=
  (m.packetInterval? arithmetic).map fun _ =>
    paced stopped Audio.AudioStream.sendSamples 0
      (slices m.samplesPerPacket.toNat (m.audio.getD []))
      ({ rtp, samplesPerPacket := m.samplesPerPacket.toNat }, link)

/-- Plays the video file, a unit at each step. -/
def playVideo (m : Media) (stopped : Nat → Bool) (rtp : Rtp.Sender) (link : Link) :
    Except RtspError Unit × H264.VideoStream × Link :=
  paced stopped H264.VideoStream.sendUnit 0
    (H264.splitUnits (m.video.getD []))
    (H264.VideoStream.create (.ofRtp rtp) m.frameRate, link)

/-- Plays a file on a stream. -/
def play (arithmetic : Arithmetic) (m : Media) (kind : StreamKind) (stopped : Nat → Bool)
    (rtp : Rtp.Sender) (link : Link) : Option (Except RtspError Unit × Link) :=
  match kind with
  | .audio => (m.playAudio arithmetic stopped rtp link).map fun (result, _, link) => (result, link)
  | .video =>
    let (result, _, link) := m.playVideo stopped rtp link
    some (result, link)

end Media

end RealTimeStreaming.Demo
