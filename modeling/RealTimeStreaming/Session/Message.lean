import RealTimeStreaming.Session.Connection

/-! What a client sends on a connection, message by message, and what has to become of it: requests
are answered in their order, each in an exchange of its own, until a response cannot be written. -/

namespace RealTimeStreaming

/-- A message from a client: a text that is one whole request to a parser with the limits
of the server, or an interleaved frame. -/
inductive Message (config : ServerConfig) where
  | request (text : Bytes)
    (whole : (({ limits := config.limits } : Parser).parse (.blank config.headerCapacity)
      text).1.result = .ok ⟨text.length, true⟩)
  | frame (channel high low : UInt8) (payload : Bytes)
    (whole : payload.length = high.toNat * 256 + low.toNat)

namespace Message

variable {config : ServerConfig}

def bytes : Message config → Bytes
  | .request text _ => text
  | .frame channel high low payload _ => Frame.marker :: channel :: high :: low :: payload

/-- The request that a new parser reads from the message alone. -/
def request? : Message config → Option Request
  | .request text _ =>
    some (({ limits := config.limits } : Parser).parse (.blank config.headerCapacity) text).2
  | .frame .. => none

end Message

namespace Controller

variable {γ : Type}

/-- Has requests answered one after the other, each in an exchange of its own. -/
def dispatchAll (controller : Controller γ) (peer : Endpoint) : List Request → γ × Link → γ × Link
  | [], served => served
  | r :: rest, (s, link) =>
    let (_, s, x) := controller.dispatch r s { peer, cseq := r.cseq, link }
    controller.dispatchAll peer rest (s, x.link)

/-- Has one request answered; the connection is closed if the response cannot be written. -/
def serve (controller : Controller γ) (peer : Endpoint) (r : Request) (s : γ) (link : Link) :
    γ × Link × Option CloseReason :=
  match controller.dispatch r s { peer, cseq := r.cseq, link } with
  | (.ok _, s, x) => (s, x.link, none)
  | (.error _, s, x) => (s, x.link, some .writeError)

/-- Has requests answered one after the other until the connection is closed. -/
def serveAll (controller : Controller γ) (peer : Endpoint) :
    List Request → γ → Link → γ × Link × Option CloseReason
  | [], s, link => (s, link, none)
  | r :: rest, s, link =>
    match controller.serve peer r s link with
    | (s, link, none) => controller.serveAll peer rest s link
    | closed => closed

end Controller

end RealTimeStreaming
