import RealTimeStreaming.Demo.Media
import RealTimeStreaming.Session.Controller
import RealTimeStreaming.TransportHeader

/-! The controller of the demo server. A client sets up an audio stream, a video stream or
both, under one session id; PLAY starts the streams that are set up and not yet started,
each at most once; TEARDOWN forgets what is set up and tells what was started to stop. -/

namespace RealTimeStreaming.Demo

/-- A stream that is set up and not started. -/
structure PendingStream where
  session : UInt64
  rtp : Rtp.Sender

/-- A stream that plays. It stops when its flag is raised. -/
structure StartedStream where
  kind : StreamKind
  rtp : Rtp.Sender
  flag : Nat

structure Player where
  peer : Endpoint
  media : Media
  description : String
  random : RandomSource
  /-- Whether sockets for datagrams can be opened. -/
  datagramsAvailable : Bool := true
  audio : Option PendingStream := none
  video : Option PendingStream := none
  /-- The flag of the streams that are started now. -/
  flag : Nat := 0
  raised : List Nat := []
  /-- All streams started so far, in order. -/
  started : List StartedStream := []

/-- The session that a request names; parameters after a semicolon do not matter. -/
def sessionOf? (r : Request) : Option (Except Text.NumberError UInt64) :=
  (r.header? "Session").map fun value =>
    Text.readUInt64 (Text.trimBlanks (value.toList.takeWhile (· != ';')))

/-- Why a `Transport` header leads to no delivery. -/
inductive TransportFault where
  | absent
  | malformed
  | noChannels
  | noPorts
  | noSocket
deriving DecidableEq, Repr

/-- The status and reason that a fault is answered with. -/
def TransportFault.reply : TransportFault → UInt16 × String
  | .absent => (400, "`Transport' not present")
  | .malformed => (400, "Malformed `Transport'")
  | .noChannels => (400, "`interleaved' not found")
  | .noPorts => (400, "`client_port' not found")
  | .noSocket => (500, "Internal Server Error")

namespace Player

def pending (p : Player) : StreamKind → Option PendingStream
  | .audio => p.audio
  | .video => p.video

def setPending (p : Player) (kind : StreamKind) (stream : Option PendingStream) : Player :=
  match kind with
  | .audio => { p with audio := stream }
  | .video => { p with video := stream }

/-- The delivery that a client asks for, and the header that confirms it. -/
def deliveryFor (p : Player) (r : Request) : Except TransportFault (Delivery × String) :=
  match r.header? "Transport" with
  | none => .error .absent
  | some value =>
    match TransportHeader.read? value with
    | none => .error .malformed
    | some asked =>
      match asked.lower with
      | .tcp =>
        match asked.channels with
        | none => .error .noChannels
        | some pair =>
          .ok (.interleaved pair.media,
            s!"RTP/AVP/TCP;unicast;interleaved={pair.media}-{pair.control}")
      | .udp =>
        match asked.ports with
        | none => .error .noPorts
        | some pair =>
          if p.datagramsAvailable then
            .ok (.datagrams { host := p.peer.host, port := pair.media },
              s!"RTP/AVP/UDP;unicast;client_port={pair.media}-{pair.control}")
          else .error .noSocket

/-- Sets up a stream in a session, if its delivery is clear. -/
def join (kind : StreamKind) (session : UInt64) (r : Request) (p : Player) : Handler Player :=
  match p.deliveryFor r with
  | .error fault => do
    Handler.reply fault.reply.1 fault.reply.2
    return p
  | .ok (delivery, confirmation) => do
    Handler.stageHeader "Transport" confirmation
    let (rtp, random) :=
      Rtp.Sender.drawn delivery kind.payloadType kind.clockRate kind.payloadType_lt p.random
    Handler.stageHeader "Session" (toString session)
    Handler.reply 200 "OK"
    return { p with random }.setPending kind (some { session, rtp })

/-- A second stream joins the session that the request names; the first one gets a new
session id. -/
def setup (r : Request) (p : Player) : Handler Player :=
  let kind := StreamKind.ofUri r.uri
  if p.media.has kind then
    match sessionOf? r with
    | some (.ok session) => p.join kind session r
    | some (.error _) => do
      Handler.reply 400 "Malformed `Session'"
      return p
    | none =>
      let (session, random) := p.random.draw64
      { p with random }.join kind session r
  else do
    Handler.reply 404 "Stream Not Found"
    return p

/-- Takes the pending stream of one kind out if it belongs to the session. -/
def takeReady (session : UInt64) (kind : StreamKind) (p : Player) : List StartedStream × Player :=
  match p.pending kind with
  | some stream =>
    if stream.session = session then
      ([{ kind, rtp := stream.rtp, flag := p.flag }], p.setPending kind none)
    else ([], p)
  | none => ([], p)

/-- Starts the session's streams once the answer is written, so no media of theirs comes
before it. -/
def play (r : Request) (p : Player) : Handler Player :=
  match sessionOf? r with
  | some (.ok session) =>
    let (audio, p) := p.takeReady session .audio
    let (video, p) := p.takeReady session .video
    let ready := audio ++ video
    if ready.isEmpty then do
      Handler.reply 454 "Invalid Session ID"
      return p
    else do
      Handler.stageHeader "Range" "npt=now-"
      match ← Handler.answerOk with
      | .ok _ => do
        Handler.startAll (ready.map (·.rtp))
        return { p with started := p.started ++ ready }
      | .error _ => return p
  | _ => do
    Handler.reply 400 "Malformed `Session'"
    return p

/-- Raises the flag of all streams started since the last time, and takes a new flag. -/
def stopAll (p : Player) : Player :=
  { p with raised := p.flag :: p.raised, flag := p.flag + 1 }

def teardown (_ : Request) (p : Player) : Handler Player := do
  Handler.reply 200 "OK"
  return { p.stopAll with audio := none, video := none }

def options (_ : Request) (p : Player) : Handler Player := do
  Handler.stageHeader "Public" "DESCRIBE, SETUP, TEARDOWN, PLAY"
  Handler.reply 200 "OK"
  return p

def describe (_ : Request) (p : Player) : Handler Player := do
  Handler.stageHeader "Content-Type" "application/sdp"
  Handler.stageBody (Text.utf8 p.description)
  Handler.reply 200 "OK"
  return p

def unknown (_ : Request) (p : Player) : Handler Player := do
  Handler.reply 405 "Unknown method"
  return p

def controller : Controller Player :=
  { options, describe, setup, play, teardown, unknown }

/-- What is left when the connection ends: all streams are told to stop. -/
def close (p : Player) : Player :=
  p.stopAll

/-- Whether a stream has been told to stop. -/
def isStopped (p : Player) (stream : StartedStream) : Bool :=
  p.raised.contains stream.flag

end Player

end RealTimeStreaming.Demo
