import RealTimeStreaming.H264.AnnexB
import RealTimeStreaming.H264.Packetizer

/-! A video stream paced by its access unit delimiters: the running timestamp moves on by
one frame at each delimiter, before the delimiter itself is sent, so all units of one
picture carry one timestamp. -/

namespace RealTimeStreaming.H264

def clockRate : UInt32 := 90000

/-- The first of the payload types that are assigned per session. -/
def payloadType : UInt8 := 96

structure VideoStream where
  nal : NalSender
  /-- The timestamp of the current picture. -/
  timestamp : UInt32 := 0
  /-- How far a frame moves the timestamp. -/
  frameStep : UInt32

namespace VideoStream

/-- A stream at `frameRate` pictures per second. -/
def create (nal : NalSender) (frameRate : UInt32) : VideoStream :=
  { nal, frameStep := nal.rtp.clockRate / frameRate }

def sendUnit (unit : NalUnit) :
    VideoStream × Link → Except RtspError Nat × VideoStream × Link
  | (s, link) =>
    let timestamp :=
      if unit.header.isDelimiter then s.timestamp + s.frameStep else s.timestamp
    let (result, nal, link) := NalSender.send (.raw timestamp) unit (s.nal, link)
    (result, { s with nal, timestamp }, link)

/-- Sends the units of a stretch of byte stream until one fails. -/
def sendStream (data : Bytes) :
    VideoStream × Link → Except RtspError Nat × VideoStream × Link :=
  Rtp.sendEach sendUnit (splitUnits data)

end VideoStream

/-- The first sequence and the first picture parameter set among the units, where those found
already come first. The search ends with the unit that makes them two. -/
def findParameterSets (sps pps : Option NalUnit) : List NalUnit → Option (NalUnit × NalUnit)
  | [] => none
  | unit :: rest =>
    let unitType := unit.header.unitType
    let sps :=
      if unitType == NalHeader.sequenceParameterSet && sps.isNone then some unit else sps
    let pps :=
      if unitType == NalHeader.pictureParameterSet && pps.isNone then some unit else pps
    match sps, pps with
    | some sps, some pps => some (sps, pps)
    | _, _ => findParameterSets sps pps rest

/-- The first sequence and the first picture parameter set of a byte stream, if it has
both. -/
def parameterSets (data : Bytes) : Option (NalUnit × NalUnit) :=
  findParameterSets none none (splitUnits data)

end RealTimeStreaming.H264
