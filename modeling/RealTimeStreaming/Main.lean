import RealTimeStreaming.Demo.Description
import RealTimeStreaming.Demo.Options
import RealTimeStreaming.Demo.Player
import RealTimeStreaming.Random.ChaCha
import RealTimeStreaming.Server
import RealTimeStreaming.Session.Connection
import Std.Async.TCP
import Std.Async.UDP

/-! The demo server as a program. It moves bytes between sockets and the values of the
library: what arrives goes to `Connection.receive`, what a link has taken goes out, and
the streams that a player has started are played at their pace. -/

open Std.Async Std.Net

namespace RealTimeStreaming.Program

def socketAddress (e : Endpoint) : SocketAddress :=
  match e.host with
  | .v4 a b c d => .v4 { addr := .ofParts a b c d, port := e.port }
  | .v6 groups => .v6 { addr := { segments := groups }, port := e.port }

def endpoint : SocketAddress → Endpoint
  | .v4 a =>
    { host := .v4 (a.addr.octets.get 0) (a.addr.octets.get 1) (a.addr.octets.get 2)
        (a.addr.octets.get 3)
      port := a.port }
  | .v6 a => { host := .v6 a.addr.segments, port := a.port }

/-- The side of the sockets of one client. -/
structure Outlet where
  connection : TCP.Socket.Client
  datagrams : UDP.Socket
  /-- Which flags tell their streams to stop. -/
  raised : IO.Ref (Nat → Bool)

/-- A link that nothing has been sent on. -/
def emptyLink : Link :=
  { datagrams := .connected }

/-- Sends what a link has taken, message by message. -/
def Outlet.send (out : Outlet) (link : Link) : IO Unit := do
  unless link.connection.wire.isEmpty do
    (out.connection.send ⟨link.connection.wire⟩).block
  for (destination, packet) in link.datagrams.sent do
    (out.datagrams.send ⟨packet.toArray⟩ (some (socketAddress destination))).block

def pause (microseconds : Nat) : IO Unit :=
  IO.sleep (microseconds / 1000).toUInt32

/-- Sends items in turn, with something done before and after each, until one fails or the
stream is told to stop. -/
def playEach {α σ : Type} (out : Outlet) (flag : Nat) (before : Nat → α → IO Unit)
    (after : IO Unit) (send : α → σ × Link → Except RtspError Nat × σ × Link)
    (items : List α) (start : σ) : IO Unit := do
  let mut state := start
  let mut count := 0
  for item in items do
    if (← out.raised.get) flag then return
    before count item
    let (result, next, link) := send item (state, emptyLink)
    out.send link
    if let .error _ := result then return
    state := next
    count := count + 1
    after

/-- Plays a stream at the pace of its media. -/
def play (out : Outlet) (media : Demo.Media) (stream : Demo.StartedStream) : IO Unit := do
  match stream.kind with
  | .audio =>
    let some interval := media.packetInterval? .checked
      | IO.eprintln "attempt to multiply with overflow"
    playEach out stream.flag (fun _ _ => return) (pause interval)
      Audio.AudioStream.sendSamples (slices media.samplesPerPacket.toNat (media.audio.getD []))
      { rtp := stream.rtp, samplesPerPacket := media.samplesPerPacket.toNat }
  | .video =>
    playEach out stream.flag
      (fun count unit => do
        if 0 < count && unit.header.isDelimiter then pause media.pictureInterval)
      (return) H264.VideoStream.sendUnit (H264.splitUnits (media.video.getD []))
      (.create (.ofRtp stream.rtp) media.frameRate)

/-- Answers a client for as long as its connection and the server stand. -/
partial def converse (out : Outlet) (server : IO.Ref Server) (media : Demo.Media)
    (c : Connection Demo.Player) : IO Unit := do
  unless (← server.get).running do return
  let some bytes ← (out.connection.recv? (← server.get).config.readBufferSize.toUInt64).block
    | return
  let begun := c.controllerState.started.length
  let c := c.receive Demo.Player.controller bytes.toList
  out.raised.set c.controllerState.raised.contains
  out.send c.link
  for stream in c.controllerState.started.drop begun do
    discard <| IO.asTask (play out media stream) .dedicated
  if c.closed.isNone then converse out server media { c with link := emptyLink }

def randomSeed : IO UInt64 := do
  let bytes ← IO.getRandomBytes 8
  return bytes.toList.foldl (fun n b => n * 256 + b.toUInt64) 0

/-- Serves one client from its first byte to its last. -/
def serve (server : IO.Ref Server) (media : Demo.Media) (description : String)
    (connection : TCP.Socket.Client) : IO Unit := do
  let peer := endpoint (← connection.getPeerName)
  let out : Outlet :=
    { connection, datagrams := ← UDP.Socket.mk, raised := ← IO.mkRef fun _ => false }
  let player : Demo.Player :=
    { peer, media, description, random := .ofSeed (← randomSeed) }
  try
    converse out server media (.opened (← server.get).config peer player emptyLink)
  finally
    out.raised.set fun _ => true
    connection.shutdown.block

/-- Accepts clients for as long as the server runs. -/
partial def accept (server : IO.Ref Server) (listener : TCP.Socket.Server)
    (media : Demo.Media) (description : String) : IO Unit := do
  if (← server.get).running then
    match ← listener.tryAccept with
    | some connection =>
      discard <| IO.asTask (serve server media description connection) .dedicated
    | none => IO.sleep 50
    accept server listener media description

def load (path : Option String) : IO (Option Bytes) :=
  path.mapM fun path => return (← IO.FS.readBinFile path).toList

/-- Binds and listens. -/
def bind (address : Endpoint) : IO (TCP.Socket.Server × Endpoint) := do
  let listener ← TCP.Socket.Server.mk
  listener.bind (socketAddress address)
  listener.listen 128
  return (listener, endpoint (← listener.getSockName))

/-- Serves media until a line is entered. -/
def runUntilEnter (bindAddress : String) (media : Demo.Media) : IO UInt32 := do
  match Endpoint.resolve bindAddress with
  | .error e =>
    IO.eprintln s!"Failed to start server: {(RtspError.io e).message}"
    return 1
  | .ok address =>
    let (listener, bound) ←
      try bind address
      catch e =>
        IO.eprintln s!"Failed to start server: I/O error: {e}"
        return 1
    let (_, started) := Server.start { bindAddress } (.ok bound)
    let server ← IO.mkRef started
    let description := media.describe (← randomSeed)
    discard <| IO.asTask (accept server listener media description) .dedicated
    IO.println s!"RTSP server on {bindAddress}, press Enter to stop"
    (← IO.getStdout).flush
    discard <| (← IO.getStdin).getLine
    server.modify Server.stop
    return 0

/-- Loads what the options name and serves it. -/
def serveFiles (options : Demo.Options) : IO UInt32 := do
  let (audio, video) ←
    try
      let audio ← load options.audio
      let video ← load options.video
      pure (audio, video)
    catch e =>
      IO.eprintln s!"Failed to read media: {e}"
      return 1
  if audio.isNone && video.isNone then
    IO.eprintln "Nothing to serve: pass --audio and/or --video"
    return 1
  runUntilEnter options.bind
    { audio, video, frameRate := options.frameRate, samplesPerPacket := options.samplesPerPacket }

end RealTimeStreaming.Program

def main (arguments : List String) : IO UInt32 :=
  match RealTimeStreaming.Demo.Command.read arguments with
  | .error e => do
    IO.eprint e.message
    return 2
  | .ok .help => do
    IO.print RealTimeStreaming.Demo.helpText
    return 0
  | .ok (.serve options) => RealTimeStreaming.Program.serveFiles options
