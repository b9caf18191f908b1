import RealTimeStreaming.Request.Basic
import RealTimeStreaming.Session.Handler

/-! Controllers: what a server does with the requests of one connection. There is a hook
for each of five methods and one for all others; `before` runs ahead of the hook and
`after` learns what came of the answer, which it cannot change. A request that no hook
answered gets a response all the same. -/

namespace RealTimeStreaming

/-- The hooks of a controller with states of type `γ`. -/
structure Controller (γ : Type) where
  before : Request → γ → Handler γ := fun _ s => .done s
  options : Request → γ → Handler γ
  describe : Request → γ → Handler γ
  setup : Request → γ → Handler γ
  play : Request → γ → Handler γ
  teardown : Request → γ → Handler γ
  unknown : Request → γ → Handler γ := fun _ s => do
    Handler.reply 501 "Not Implemented"
    return s
  after : Except RtspError Nat → Request → γ → Epilogue γ := fun _ _ s => ⟨.done s, trivial⟩

namespace Controller

variable {γ : Type}

/-- The hook that a method goes to. -/
def hook (c : Controller γ) : Method → Request → γ → Handler γ
  | .options => c.options
  | .describe => c.describe
  | .setup => c.setup
  | .play => c.play
  | .teardown => c.teardown
  | _ => c.unknown

/-- Answers with an internal error unless something was answered already. -/
def ensureAnswered (x : Exchange) : Exchange :=
  if x.hasResponded then x else (x.respond 500 "Internal Server Error").2

/-- Has a request answered. Also gives what came of the last response. -/
def settle (c : Controller γ) (r : Request) (s : γ) (x : Exchange) :
    Except RtspError Nat × γ × Exchange :=
  let (s, x) := (c.before r s).run x
  let (s, x) := (c.hook r.method r s).run x
  let (outcome, x) := (ensureAnswered x).takeOutcome
  (outcome, s, x)

/-- Has a request answered and tells the controller what came of it. -/
def dispatch (c : Controller γ) (r : Request) (s : γ) (x : Exchange) :
    Except RtspError Nat × γ × Exchange :=
  let (outcome, s, x) := c.settle r s x
  let (s, x) := (c.after outcome r s).handler.run x
  (outcome, s, x)

end Controller

end RealTimeStreaming
