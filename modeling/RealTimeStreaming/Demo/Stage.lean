import RealTimeStreaming.Demo.Player
import RealTimeStreaming.Session.Streaming

/-! The connection of one client of the demo server. Requests are answered one after the other, and
the streams that were started send their packets at any time, also while a request is answered. -/

namespace RealTimeStreaming.Demo

/-- The player of a client with all that it writes to. -/
structure Stage where
  player : Player
  streams : Streams

inductive Event where
  /-- A request is answered, with packets that go out ahead of each thing that is done for it. -/
  | request (r : Request) (ahead : List Burst)
  /-- One of the streams that were started, by its place among them, sends a packet. -/
  | media (stream : Nat) (x : Rtp.Sending)

/-- The request of an event that is one. -/
def Event.request? : Event → Option Request
  | .request r _ => some r
  | .media _ _ => none

namespace Stage

def step (stage : Stage) : Event → Stage
  | .request r ahead =>
    let (_, player, x) := Player.controller.dispatchAmong r stage.player
      (stage.streams.exchange stage.player.peer r.cseq ahead)
    { player, streams := x.streams }
  | .media i x => { stage with streams := stage.streams.send (i, x) }

end Stage

/-- One event with the stage before and after it. -/
structure Step where
  event : Event
  before : Stage
  after : Stage

/-- The streams that the step started. -/
def Step.started (step : Step) : List StartedStream :=
  step.after.player.started.drop step.before.player.started.length

namespace Stage

/-- The step that an event makes from here. -/
def next (stage : Stage) (event : Event) : Step :=
  { event, before := stage, after := stage.step event }

/-- The steps of a run. -/
def steps : List Event → Stage → List Step
  | [], _ => []
  | event :: events, stage => stage.next event :: steps events (stage.step event)

end Stage

end RealTimeStreaming.Demo
