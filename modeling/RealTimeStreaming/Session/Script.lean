import RealTimeStreaming.Session.Controller

/-! Controllers that follow a script: every hook notes what it was called with and then
performs a fixed list of actions, noting what it learns. -/

namespace RealTimeStreaming

inductive Action where
  | header (name value : String)
  /-- Stages a header `Echo` with the value that the request's header has. -/
  | echo (name : String)
  | body (content : Bytes)
  | respond (status : UInt16) (reason : String)
  | sendFrame (channel : UInt8) (payload : Bytes)
  /-- Notes all that a handler sees of the exchange. -/
  | probe
  /-- Notes whether something was answered. -/
  | responded
deriving DecidableEq, Repr

/-- The hooks that have a script. -/
inductive HookName where
  | before
  | options
  | describe
  | setup
  | play
  | teardown
  | unknown
deriving DecidableEq, Repr

inductive Note where
  | called (hook : HookName) (request : Request)
  | sent (result : Except RtspError Nat)
  | saw (view : ExchangeView)
  | responded (yes : Bool)
  | finished (outcome : Except RtspError Nat) (hasResponded : Bool)

/-- What a scripted controller has noted, in order. -/
abbrev Notes := List Note

namespace Action

def perform (r : Request) (notes : Notes) : Action → Handler Notes
  | .header name value => do
    Handler.stageHeader name value
    return notes
  | .echo name => do
    Handler.stageHeader "Echo" ((r.header? name).getD "(none)")
    return notes
  | .body content => do
    Handler.stageBody content
    return notes
  | .respond status reason => return notes ++ [.sent (← Handler.answer status reason)]
  | .sendFrame channel payload => return notes ++ [.sent (← Handler.send channel payload)]
  | .probe => return notes ++ [.saw (← Handler.view)]
  | .responded => return notes ++ [.responded (← Handler.view).hasResponded]

def performAll (r : Request) : List Action → Notes → Handler Notes
  | [], notes => .done notes
  | action :: rest, notes => do performAll r rest (← action.perform r notes)

end Action

/-- The actions of each hook. -/
abbrev Script := HookName → List Action

namespace Script

def hook (script : Script) (name : HookName) (r : Request) (notes : Notes) : Handler Notes :=
  Action.performAll r (script name) (notes ++ [.called name r])

/-- A controller with a script for the five methods and the default hooks otherwise. -/
def methodController (script : Script) : Controller Notes where
  options := script.hook .options
  describe := script.hook .describe
  setup := script.hook .setup
  play := script.hook .play
  teardown := script.hook .teardown

/-- A controller with a script for every hook, which notes the outcome too. -/
def controller (script : Script) : Controller Notes :=
  { script.methodController with
    before := script.hook .before
    unknown := script.hook .unknown
    after := fun outcome _ notes =>
      ⟨.look fun view => .done (notes ++ [.finished outcome view.hasResponded]),
        fun _ => trivial⟩ }

end Script

end RealTimeStreaming
