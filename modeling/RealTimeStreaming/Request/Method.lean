import RealTimeStreaming.Request.Error

/-! Request methods. The registered ones are told by their exact spelling; any other
alphanumeric token is an extension, kept so that a controller can still answer it. -/

namespace RealTimeStreaming

inductive Method where
  | options
  | describe
  | announce
  | setup
  | play
  | pause
  | record
  | teardown
  | getParameter
  | setParameter
  | redirect
  | extension (name : String)
deriving DecidableEq, Repr

namespace Method

def name : Method → String
  | .options => "OPTIONS"
  | .describe => "DESCRIBE"
  | .announce => "ANNOUNCE"
  | .setup => "SETUP"
  | .play => "PLAY"
  | .pause => "PAUSE"
  | .record => "RECORD"
  | .teardown => "TEARDOWN"
  | .getParameter => "GET_PARAMETER"
  | .setParameter => "SET_PARAMETER"
  | .redirect => "REDIRECT"
  | .extension name => name

def registered : List Method :=
  [.options, .describe, .announce, .setup, .play, .pause, .record, .teardown, .getParameter,
    .setParameter, .redirect]

def isExtension : Method → Bool
  | .extension _ => true
  | _ => false

/-- The method that a token names. Case matters, so `options` is an extension. -/
def ofToken (token : Bytes) : Except ParseError Method :=
  match registered.find? fun m => Text.utf8 m.name == token with
  | some m => .ok m
  | none =>
    if !token.isEmpty && token.all Octet.isAlphanumeric then
      .ok (.extension (Text.ofAscii token))
    else .error (.token .identifier token)

theorem ofToken_name {m : Method} (h : m ∈ registered) :
    ofToken (Text.utf8 m.name) = .ok m := by
  simp only [registered, List.mem_cons, List.not_mem_nil, or_false] at h
  rcases h with h | h | h | h | h | h | h | h | h | h | h <;> subst h <;> rfl

end Method

end RealTimeStreaming
