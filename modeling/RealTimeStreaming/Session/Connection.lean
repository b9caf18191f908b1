import RealTimeStreaming.Request.Parser
import RealTimeStreaming.Session.Controller

/-! One client connection. The bytes that arrive are a sequence of requests and
interleaved frames; requests are dispatched in order, frames from the client are passed
over. A request that cannot be parsed is answered once and ends the connection, since
there is no telling where the next one starts; so does a response that cannot be written. -/

namespace RealTimeStreaming

/-- What a server asks of every connection. -/
structure ServerConfig where
  limits : Limits := {}
  /-- How many distinct headers a request may have. -/
  headerCapacity : Nat := 32
  readBufferSize : Nat := 4096
deriving DecidableEq, Repr

inductive CloseReason where
  | writeError
  | malformedRequest
deriving DecidableEq, Repr

def CloseReason.text : CloseReason → String
  | .writeError => "write error"
  | .malformedRequest => "malformed request"

structure Connection (γ : Type) where
  peer : Endpoint
  controllerState : γ
  parser : Parser
  request : Request
  link : Link
  /-- The bytes that have arrived and are not yet dealt with. -/
  buffer : Bytes := []
  closed : Option CloseReason := none

namespace Connection

variable {γ : Type}

/-- A new connection. -/
def opened (config : ServerConfig) (peer : Endpoint) (controllerState : γ) (link : Link) :
    Connection γ where
  peer := peer
  controllerState := controllerState
  parser := { limits := config.limits }
  request := .blank config.headerCapacity
  link := link

/-- The response to a request that failed to parse. It repeats the sequence number if
that had been read. -/
def rejection (e : ParseError) (r : Request) : Response :=
  let response : Response :=
    match e with
    | .tooLong .requestUri _ => .create 414 "Request-URI Too Large"
    | e => if e.isCapacity then .create 413 "Request Entity Too Large" else .badRequest
  match r.header? "CSeq" with
  | some cseq => response.addHeader "CSeq" cseq
  | none => response

/-- Answers a request that failed to parse and closes. -/
def reject (c : Connection γ) (e : ParseError) : Connection γ :=
  let (_, connection) := c.link.connection.write (rejection e c.request).encode
  { c with link := { c.link with connection }, closed := some .malformedRequest }

/-- Dispatches the request that the parser has completed, removes its bytes and gets
ready for the next one. -/
def answer (controller : Controller γ) (c : Connection γ) : Connection γ :=
  let (outcome, state, x) := controller.dispatch c.request c.controllerState
    { peer := c.peer, cseq := c.request.cseq, link := c.link }
  { c with
    controllerState := state
    link := x.link
    buffer := c.buffer.drop c.parser.offset
    parser := c.parser.reset
    closed :=
      match outcome with
      | .ok _ => none
      | .error _ => some .writeError }

/-- What stands at the start of the buffer. -/
inductive Front where
  /-- A whole frame of so many bytes. -/
  | frame (length : Nat)
  /-- A frame of which some bytes are missing. -/
  | partOfFrame
  /-- Bytes of a request. -/
  | request

/-- A dollar sign starts a frame unless a request is under way. -/
def front (c : Connection γ) : Front :=
  if c.parser.offset = 0 ∧ Frame.starts c.buffer then
    match Frame.readHeader? c.buffer with
    | none => .partOfFrame
    | some (_, length) =>
      if c.buffer.length < Frame.headerLength + length then .partOfFrame
      else .frame (Frame.headerLength + length)
  else .request

/-- What one turn of the input loop leaves. -/
inductive Turn (γ : Type) where
  /-- A message has been dealt with. -/
  | again (c : Connection γ)
  /-- More bytes have to come, or the connection is closed. -/
  | rest (c : Connection γ)

/-- Deals with the message at the start of the buffer, if all of it is there. -/
def turn (controller : Controller γ) (c : Connection γ) : Turn γ :=
  match c.front with
  | .frame length => .again { c with buffer := c.buffer.drop length }
  | .partOfFrame => .rest c
  | .request =>
    let (parser, request) := c.parser.parse c.request c.buffer
    let c := { c with parser, request }
    match parser.stage with
    | .failed e => .rest (c.reject e)
    | .done =>
      let c := c.answer controller
      if c.closed.isSome then .rest c else .again c
    | _ => .rest c

/-- What the input loop uses up: bytes, and the last steps of a request under way. -/
def work (c : Connection γ) : Nat :=
  2 * c.buffer.length + (2 - c.parser.stage.rank)

theorem length_of_front_eq_frame {c : Connection γ} {n : Nat} (h : c.front = .frame n) :
    Frame.headerLength ≤ n ∧ n ≤ c.buffer.length := by
  unfold front at h
  split at h
  · split at h
    · cases h
    · split at h
      · cases h
      · cases h
        omega
  · cases h

@[simp] theorem buffer_answer (controller : Controller γ) (c : Connection γ) :
    (c.answer controller).buffer = c.buffer.drop c.parser.offset := rfl

@[simp] theorem parser_answer (controller : Controller γ) (c : Connection γ) :
    (c.answer controller).parser = c.parser.reset := rfl

theorem work_turn_lt {controller : Controller γ} {c d : Connection γ}
    (h : c.turn controller = .again d) : d.work < c.work := by
  unfold turn at h
  split at h
  · rename_i n hn
    have hl := length_of_front_eq_frame hn
    cases h
    simp only [work, List.length_drop, Frame.headerLength] at hl ⊢
    omega
  · cases h
  · dsimp only at h
    split at h
    · cases h
    · rename_i hs
      split at h
      · cases h
      · cases h
        have hr (p : Parser) : p.reset.stage.rank = 5 := rfl
        simp only [work, buffer_answer, parser_answer, List.length_drop, hr]
        by_cases hp : 1 < c.parser.stage.rank
        · have hc := Parser.run_consumes hp hs
          have := List.length_pos_iff.2 hc.2
          simp only [List.length_drop] at this
          simp only [Parser.parse]
          omega
        · omega
    · cases h

/-- Deals with every message that is complete in the buffer. -/
def process (controller : Controller γ) (c : Connection γ) : Connection γ :=
  match _h : c.turn controller with
  | .again c => process controller c
  | .rest c => c
termination_by c.work
decreasing_by exact work_turn_lt _h

/-- Takes in bytes from the client. A closed connection takes none. -/
def receive (controller : Controller γ) (c : Connection γ) (bytes : Bytes) : Connection γ :=
  if c.closed.isSome then c
  else process controller { c with buffer := c.buffer ++ bytes }

end Connection

end RealTimeStreaming
