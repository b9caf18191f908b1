import Mathlib.Logic.Function.Basic
import RealTimeStreaming.Response
import RealTimeStreaming.Rtp.Program

/-! A connection that streams share with each other and with the responses. Whoever writes has the
connection to itself until its message is out, so what happens is a sequence of turns. -/

namespace RealTimeStreaming

open Rtp (Program)

/-- One message is written: the next packet of a stream, or a response. -/
inductive Turn (ι : Type) where
  | packet (stream : ι)
  | response (r : Response)

/-- The response that a turn writes. -/
def Turn.response? {ι : Type} : Turn ι → Option Response
  | .packet _ => none
  | .response r => some r

/-- A connection that streams share, and what each of them has yet to do. -/
structure Shared (ι : Type) where
  link : Link
  streams : ι → Program Unit × Rtp.Sender

namespace Shared

variable {ι : Type}

/-- The stream has made all its calls. -/
def Finished (state : Shared ι) (i : ι) : Prop :=
  (state.streams i).1.isDone = true

/-- A turn is taken whole. A stream that has come to its end lets it pass. -/
def step [DecidableEq ι] (state : Shared ι) : Turn ι → Shared ι
  | .packet i =>
    match state.streams i with
    | (.done _, _) => state
    | (.send x next, rtp) =>
      let (result, rtp, link) := Rtp.Sender.perform x (rtp, state.link)
      { link, streams := Function.update state.streams i (next result, rtp) }
  | .response r =>
    { state with
      link := { state.link with connection := (state.link.connection.write r.encode).2 } }

def run [DecidableEq ι] (schedule : List (Turn ι)) (state : Shared ι) : Shared ι :=
  schedule.foldl step state

end Shared

end RealTimeStreaming
