import RealTimeStreaming.Demo.Media
import RealTimeStreaming.Text.Base64

/-! The session description that tells a client which streams there are. The video part
carries the parameter sets of the file itself, so a decoder can start at any picture. -/

namespace RealTimeStreaming.Demo

def sessionLines (sessionId : UInt64) : List String :=
  ["v=0", s!"o=- {sessionId} 1 IN IP4 0.0.0.0", "s=rtsp-wire", "c=IN IP4 0.0.0.0", "t=0 0",
    "a=tool:rtsp-wire"]

def audioLines : List String :=
  [s!"m=audio 0 RTP/AVP {Audio.payloadType}", "a=control:audio"]

/-- The parameter sets in base64, if the video has both. -/
def parameterSetsParameter (video : Bytes) : String :=
  match H264.parameterSets video with
  | some (sps, pps) =>
    ";sprop-parameter-sets=" ++ Text.Base64.encode sps.bytes ++ "," ++
      Text.Base64.encode pps.bytes
  | none => ""

/-- The line that names the payload type comes before the one with its parameters. -/
def videoLines (video : Bytes) (frameRate : UInt32) : List String :=
  [s!"m=video 0 RTP/AVP {H264.payloadType}",
    "a=control:video",
    s!"a=rtpmap:{H264.payloadType} H264/{H264.clockRate}",
    s!"a=fmtp:{H264.payloadType} packetization-mode=1" ++ parameterSetsParameter video,
    s!"a=framerate:{frameRate}"]

namespace Media

def descriptionLines (m : Media) (sessionId : UInt64) : List String :=
  sessionLines sessionId ++
  (if m.audio.isSome then audioLines else []) ++
  (match m.video with
    | some video => videoLines video m.frameRate
    | none => [])

/-- The description, every line with its end. -/
def describe (m : Media) (sessionId : UInt64) : String :=
  String.join ((m.descriptionLines sessionId).map (· ++ "\r\n"))

end Media

end RealTimeStreaming.Demo
