import RealTimeStreaming.Session.Controller

/-! Requests on a connection on which streams play. A stream sends from a thread of its own, so its
packets may go out ahead of anything that a handler does. A packet is one message, as a response
is, and is written whole. A stream that a handler starts may send from then on. -/

namespace RealTimeStreaming

/-- The streams that were started on a connection, with the numbers that their packets have come
to, and the link that they share with the responses. -/
structure Streams where
  link : Link
  senders : List Rtp.Sender := []
  /-- Whose packets went out so far, and what the connection had taken ahead of each. -/
  log : List (Nat × Bytes) := []

/-- Packets one after the other, each with the place of its stream among those started. -/
abbrev Burst := List (Nat × Rtp.Sending)

namespace Streams

/-- Sends a packet. A stream that was not started sends none. -/
def send (streams : Streams) (packet : Nat × Rtp.Sending) : Streams :=
  match streams.senders[packet.1]? with
  | none => streams
  | some rtp =>
    let (_, rtp, link) := Rtp.Sender.perform packet.2 (rtp, streams.link)
    { link
      senders := streams.senders.set packet.1 rtp
      log := streams.log ++ [(packet.1, streams.link.connection.taken)] }

def sendAll (streams : Streams) (packets : Burst) : Streams :=
  packets.foldl send streams

def start (streams : Streams) (more : List Rtp.Sender) : Streams :=
  { streams with senders := streams.senders ++ more }

end Streams

/-- An exchange on a link that streams share. -/
structure SharedExchange where
  exchange : Exchange
  senders : List Rtp.Sender
  log : List (Nat × Bytes)
  /-- What goes out ahead of the next thing that is done, ahead of the one after it, and so on. -/
  ahead : List Burst

/-- The start of an exchange on the link. -/
def Streams.exchange (streams : Streams) (peer : Endpoint) (cseq : UInt32) (ahead : List Burst) :
    SharedExchange :=
  { exchange := { peer, cseq, link := streams.link }
    senders := streams.senders
    log := streams.log
    ahead }

namespace SharedExchange

def streams (x : SharedExchange) : Streams :=
  { link := x.exchange.link, senders := x.senders, log := x.log }

/-- The streams get their turn. -/
def yield (x : SharedExchange) : SharedExchange :=
  let streams := x.streams.sendAll (x.ahead.headD [])
  { exchange := { x.exchange with link := streams.link }
    senders := streams.senders
    log := streams.log
    ahead := x.ahead.tail }

end SharedExchange

/-- Carries a handler out with a turn of the streams ahead of everything that it does. -/
def Handler.runAmong {α : Type} : Handler α → SharedExchange → α × SharedExchange
  | .done value, x => (value, x)
  | .header name value next, x =>
    let x := x.yield
    next.runAmong { x with exchange := x.exchange.stageHeader name value }
  | .body content next, x =>
    let x := x.yield
    next.runAmong { x with exchange := x.exchange.stageBody content }
  | .respond status reason next, x =>
    let x := x.yield
    let (result, exchange) := x.exchange.respond status reason
    (next result).runAmong { x with exchange }
  | .sendFrame channel payload next, x =>
    let x := x.yield
    let (result, exchange) := x.exchange.sendFrame channel payload
    (next result).runAmong { x with exchange }
  | .look next, x =>
    let x := x.yield
    (next x.exchange.view).runAmong x
  | .start stream next, x =>
    let x := x.yield
    next.runAmong { x with senders := x.senders ++ [stream] }

namespace Controller

variable {γ : Type}

/-- Has a request answered among streams. -/
def settleAmong (c : Controller γ) (r : Request) (s : γ) (x : SharedExchange) :
    Except RtspError Nat × γ × SharedExchange :=
  let (s, x) := (c.before r s).runAmong x
  let (s, x) := (c.hook r.method r s).runAmong x
  let x := x.yield
  let (outcome, exchange) := (ensureAnswered x.exchange).takeOutcome
  (outcome, s, { x with exchange })

/-- Has a request answered among streams and tells the controller what came of it. -/
def dispatchAmong (c : Controller γ) (r : Request) (s : γ) (x : SharedExchange) :
    Except RtspError Nat × γ × SharedExchange :=
  let (outcome, s, x) := c.settleAmong r s x
  let (s, x) := (c.after outcome r s).handler.runAmong x
  (outcome, s, x)

end Controller

end RealTimeStreaming
