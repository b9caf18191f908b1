import RealTimeStreaming.Request.HeaderMap
import RealTimeStreaming.Request.Method

/-! A request: method, target and version of its first line, the headers, the sequence
number taken from them, and the body. -/

namespace RealTimeStreaming

/-- Only one protocol version is accepted. -/
inductive Version where
  | rtsp10
deriving DecidableEq, Repr

def Version.name : Version → String
  | .rtsp10 => "RTSP/1.0"

structure Request where
  method : Method := .extension ""
  uri : String := ""
  version : Version := .rtsp10
  headers : HeaderMap := {}
  cseq : UInt32 := 0
  body : Bytes := []
deriving DecidableEq, Repr

namespace Request

/-- A blank request whose headers have room for `capacity` names. -/
def blank (capacity : Nat) : Request :=
  { headers := .empty capacity }

/-- Blanks every field and keeps the room for headers. -/
def clear (r : Request) : Request :=
  blank r.headers.capacity

def header? (r : Request) (name : String) : Option String :=
  r.headers.get? name

@[simp] theorem clear_blank (capacity : Nat) : (blank capacity).clear = blank capacity := rfl

@[simp] theorem clear_clear (r : Request) : r.clear.clear = r.clear := rfl

end Request

end RealTimeStreaming
