import RealTimeStreaming.Rtp.Sender

/-! The packets of a stream one at a time. A call to a stream is a program that asks for a packet,
learns what became of it and goes on by that, so that others can write in between. -/

namespace RealTimeStreaming.Rtp

/-- What remains of the calls to a stream. -/
inductive Program (α : Type) where
  | done (result : α)
  | send (x : Sending) (next : Except RtspError Nat → Program α)

namespace Program

variable {α β σ item : Type}

def isDone : Program α → Bool
  | .done _ => true
  | .send _ _ => false

/-- Goes on with another program. -/
def bind (f : α → Program β) : Program α → Program β
  | .done result => f result
  | .send x next => .send x fun result => (next result).bind f

/-- Carries a program out to its end, with nothing in between. -/
def run : Program α → Sender × Link → α × Sender × Link
  | .done result, state => (result, state)
  | .send x next, state =>
    let sent := Sender.perform x state
    (next sent.1).run sent.2

/-- One packet. -/
def packet (x : Sending) (_ : Unit) : Program (Except RtspError Nat × Unit) :=
  .send x fun result => .done (result, ())

/-! ### Programs of calls -/

/-- Items in order until one fails, as `sendEach` sends them. -/
def each (f : item → σ → Program (Except RtspError Nat × σ)) :
    List item → σ → Program (Except RtspError Nat × σ)
  | [], t => .done (.ok 0, t)
  | x :: items, t =>
    (f x t).bind fun
      | (.error e, t) => .done (.error e, t)
      | (.ok n, t) => (each f items t).bind fun (result, t) => .done (result.map (n + ·), t)

/-- Calls in order, whatever becomes of them. -/
def all (f : item → σ → Program (Except RtspError Nat × σ)) : List item → σ → Program σ
  | [], t => .done t
  | x :: items, t => (f x t).bind fun (_, t) => all f items t

end Program

end RealTimeStreaming.Rtp
