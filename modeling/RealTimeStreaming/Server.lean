import RealTimeStreaming.Session.Connection

/-! The life of a server: it is started on an address and stopped, any number of times.
The address of the last successful start is remembered. -/

namespace RealTimeStreaming

structure Server where
  /-- The address that every start asks for. -/
  bindAddress : String
  config : ServerConfig := {}
  running : Bool := false
  boundTo : Option Endpoint := none

namespace Server

/-- Starts a server that is not running; `bound` is what came of binding its address. -/
def start (s : Server) (bound : Except IoError Endpoint) : Except RtspError Endpoint × Server :=
  if s.running then (.error .alreadyRunning, s)
  else
    match bound with
    | .error e => (.error (.io e), s)
    | .ok endpoint => (.ok endpoint, { s with running := true, boundTo := some endpoint })

def stop (s : Server) : Server :=
  { s with running := false }

/-- The address that the server was bound to at its last start. -/
def localAddress (s : Server) : Except RtspError Endpoint :=
  match s.boundTo with
  | some endpoint => .ok endpoint
  | none => .error .notStarted

end Server

end RealTimeStreaming
