import RealTimeStreaming.Server

/-! A server and the loops that accept its connections. Every successful start leaves a
loop behind that listens on the address just bound. A loop looks at the server each time
before it accepts, and ends when it finds the server stopped. -/

namespace RealTimeStreaming

/-- A loop that accepts connections. -/
structure Listener where
  endpoint : Endpoint
  ended : Bool := false
deriving DecidableEq, Repr

structure Service where
  server : Server
  /-- In the order of the starts that they come from. -/
  listeners : List Listener := []
  /-- The connections accepted: which listener it was, and the client. -/
  accepted : List (Nat × Endpoint) := []

namespace Service

inductive Event where
  /-- The server is started; `bound` is what comes of binding its address. -/
  | start (bound : Except IoError Endpoint)
  | stop
  /-- A listener takes a turn; a client may be waiting for it. -/
  | poll (listener : Nat) (waiting : Option Endpoint)

/-- A start that succeeds adds a listener. -/
def start (bound : Except IoError Endpoint) (s : Service) : Service :=
  match s.server.start bound with
  | (.ok endpoint, server) =>
    { s with server, listeners := s.listeners ++ [{ endpoint }] }
  | (.error _, server) => { s with server }

/-- One turn of a listener. -/
def poll (i : Nat) (waiting : Option Endpoint) (s : Service) : Service :=
  match s.listeners[i]? with
  | none => s
  | some listener =>
    if listener.ended then s
    else if s.server.running then
      match waiting with
      | some client => { s with accepted := s.accepted ++ [(i, client)] }
      | none => s
    else { s with listeners := s.listeners.set i { listener with ended := true } }

def step (s : Service) : Event → Service
  | .start bound => s.start bound
  | .stop => { s with server := s.server.stop }
  | .poll i waiting => s.poll i waiting

/-- Takes the events in order. -/
def run (s : Service) (events : List Event) : Service :=
  events.foldl step s

@[simp] theorem run_nil (s : Service) : s.run [] = s := rfl

@[simp] theorem run_cons (s : Service) (event : Event) (events : List Event) :
    s.run (event :: events) = (s.step event).run events := rfl

end Service

end RealTimeStreaming
