import RealTimeStreaming.Rtp.Sender
import RealTimeStreaming.Session.Exchange

/-! The answers of a controller, as programs. A handler can stage headers and a body,
respond, send frames and look at the exchange, and go on by what it learns. Nothing else
about the exchange is open to it. Beside that it can start streams. -/

namespace RealTimeStreaming

/-- What a handler sees of an exchange. -/
structure ExchangeView where
  peer : Endpoint
  cseq : UInt32
  hasResponded : Bool
deriving DecidableEq, Repr

def Exchange.view (x : Exchange) : ExchangeView :=
  { peer := x.peer, cseq := x.cseq, hasResponded := x.hasResponded }

inductive Handler (α : Type) where
  | done (value : α)
  | header (name value : String) (next : Handler α)
  | body (content : Bytes) (next : Handler α)
  | respond (status : UInt16) (reason : String) (next : Except RtspError Nat → Handler α)
  | sendFrame (channel : UInt8) (payload : Bytes) (next : Except RtspError Nat → Handler α)
  | look (next : ExchangeView → Handler α)
  /-- Hands a stream to a thread of its own. -/
  | start (stream : Rtp.Sender) (next : Handler α)

namespace Handler

variable {α β : Type}

/-- Goes on with another handler. -/
def bind (f : α → Handler β) : Handler α → Handler β
  | .done value => f value
  | .header name value next => .header name value (next.bind f)
  | .body content next => .body content (next.bind f)
  | .respond status reason next => .respond status reason fun result => (next result).bind f
  | .sendFrame channel payload next =>
    .sendFrame channel payload fun result => (next result).bind f
  | .look next => .look fun view => (next view).bind f
  | .start stream next => .start stream (next.bind f)

instance : Monad Handler where
  pure := .done
  bind h f := h.bind f

/-- Carries a handler out on an exchange that nothing else writes to. -/
def run : Handler α → Exchange → α × Exchange
  | .done value, x => (value, x)
  | .header name value next, x => next.run (x.stageHeader name value)
  | .body content next, x => next.run (x.stageBody content)
  | .respond status reason next, x =>
    let (result, x) := x.respond status reason
    (next result).run x
  | .sendFrame channel payload next, x =>
    let (result, x) := x.sendFrame channel payload
    (next result).run x
  | .look next, x => (next x.view).run x
  | .start _ next, x => next.run x

def stageHeader (name value : String) : Handler Unit :=
  .header name value (.done ())

def stageBody (content : Bytes) : Handler Unit :=
  .body content (.done ())

def answer (status : UInt16) (reason : String) : Handler (Except RtspError Nat) :=
  .respond status reason .done

def answerOk : Handler (Except RtspError Nat) :=
  answer 200 "OK"

def answerInternalError : Handler (Except RtspError Nat) :=
  answer 500 "Internal Server Error"

/-- Answers and goes on whatever came of it. -/
def reply (status : UInt16) (reason : String) : Handler Unit :=
  .respond status reason fun _ => .done ()

def send (channel : UInt8) (payload : Bytes) : Handler (Except RtspError Nat) :=
  .sendFrame channel payload .done

def view : Handler ExchangeView :=
  .look .done

def startAll : List Rtp.Sender → Handler Unit
  | [] => .done ()
  | stream :: rest => .start stream (startAll rest)

theorem run_bind (h : Handler α) (f : α → Handler β) (x : Exchange) :
    (h.bind f).run x = (f (h.run x).1).run (h.run x).2 := by
  induction h generalizing x with
  | done value => rfl
  | header name value next ih => exact ih _
  | body content next ih => exact ih _
  | respond status reason next ih => exact ih _ _
  | sendFrame channel payload next ih => exact ih _ _
  | look next ih => exact ih _ _
  | start stream next ih => exact ih _

@[simp] theorem run_startAll (streams : List Rtp.Sender) (x : Exchange) :
    (startAll streams).run x = ((), x) := by
  induction streams with
  | nil => rfl
  | cons stream rest ih => exact ih

/-- The handler neither stages nor responds. -/
def Bare : Handler α → Prop
  | .done _ => True
  | .header .. => False
  | .body .. => False
  | .respond .. => False
  | .sendFrame _ _ next => ∀ result, (next result).Bare
  | .look next => ∀ view, (next view).Bare
  | .start _ next => next.Bare

theorem Bare.bind {h : Handler α} (hbare : h.Bare) {f : α → Handler β}
    (hf : ∀ value, (f value).Bare) : (h.bind f).Bare := by
  induction h with
  | done value => exact hf value
  | header => exact hbare.elim
  | body => exact hbare.elim
  | respond => exact hbare.elim
  | sendFrame channel payload next ih => exact fun result => ih result (hbare result)
  | look next ih => exact fun view => ih view (hbare view)
  | start stream next ih => exact ih hbare

end Handler

/-- What is left to do when a request has its answer: frames can be sent and the exchange looked
at, but it is too late to stage or to respond. -/
structure Epilogue (α : Type) where
  handler : Handler α
  bare : handler.Bare

end RealTimeStreaming
