import RealTimeStreaming.Response
import RealTimeStreaming.Wire.Delivery

/-! The answering of one request: headers and a body are staged, and a response takes all
that is staged at that moment. More than one response may be written; the outcome of the
last attempt is kept until it is taken. -/

namespace RealTimeStreaming

structure Exchange where
  peer : Endpoint
  /-- The sequence number that every response repeats. -/
  cseq : UInt32
  link : Link
  staged : List (String × String) := []
  body : Option Bytes := none
  /-- Of the last response attempted: its length, or the kind of its failure. -/
  outcome : Option (Except IoErrorKind Nat) := none

namespace Exchange

def hasResponded (x : Exchange) : Bool :=
  x.outcome.isSome

/-- Stages a header for the next response. -/
def stageHeader (x : Exchange) (name value : String) : Exchange :=
  { x with staged := x.staged ++ [(name, value)] }

/-- Stages the body of the next response. -/
def stageBody (x : Exchange) (body : Bytes) : Exchange :=
  { x with body := some body }

/-- The response that would be written now. -/
def response (x : Exchange) (status : UInt16) (reason : String) : Response :=
  let r := (Response.create status reason).addHeader "CSeq" (toString x.cseq)
  { r with headers := r.headers ++ x.staged, body := x.body }

/-- Writes a response with all that is staged. -/
def respond (x : Exchange) (status : UInt16) (reason : String) :
    Except RtspError Nat × Exchange :=
  let message := (x.response status reason).encode
  let (result, connection) := x.link.connection.write message
  let x := { x with link := { x.link with connection }, staged := [], body := none }
  match result with
  | .ok () => (.ok message.length, { x with outcome := some (.ok message.length) })
  | .error e => (.error (.io e), { x with outcome := some (.error e.kind) })

/-- Sends an interleaved frame on the connection. -/
def sendFrame (x : Exchange) (channel : UInt8) (payload : Bytes) :
    Except RtspError Nat × Exchange :=
  let (result, connection) := x.link.connection.sendFrame channel payload
  (result, { x with link := { x.link with connection } })

/-- Takes the outcome out. Of a failure only the kind is left. -/
def takeOutcome (x : Exchange) : Except RtspError Nat × Exchange :=
  (match x.outcome with
    | some (.ok n) => .ok n
    | some (.error kind) => .error (.io (.plain kind))
    | none => .ok 0,
    { x with outcome := none })

end Exchange

end RealTimeStreaming
