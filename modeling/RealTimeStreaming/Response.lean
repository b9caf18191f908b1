import RealTimeStreaming.Text.Utf8

/-! Responses and their written form: a status line, the header lines, an empty line and
the body. A body is announced by a `Content-Length` line, also when it is empty; without
a body there is no such line. -/

namespace RealTimeStreaming

structure Response where
  status : UInt16
  reason : String
  headers : List (String × String)
  body : Option Bytes := none
deriving DecidableEq, Repr

namespace Response

/-- How the server names itself in every response. -/
def agent : String := "rtsp-wire/0.1"

/-- A response with its `Server` header only. -/
def create (status : UInt16) (reason : String) : Response :=
  { status, reason, headers := [("Server", agent)] }

def ok : Response := create 200 "OK"

def badRequest : Response := create 400 "Bad Request"

def addHeader (r : Response) (name value : String) : Response :=
  { r with headers := r.headers ++ [(name, value)] }

def withBody (r : Response) (body : Bytes) : Response :=
  { r with body := some body }

def lineEnd : String := "\r\n"

def statusLine (r : Response) : String :=
  s!"RTSP/1.0 {r.status} {r.reason}" ++ lineEnd

def headerLine (name value : String) : String :=
  name ++ ": " ++ value ++ lineEnd

/-- The lines of the headers, with the length of the body if there is one. -/
def headerLines (r : Response) : List String :=
  r.headers.map (fun (name, value) => headerLine name value) ++
  match r.body with
  | some body => [headerLine "Content-Length" (toString body.length)]
  | none => []

/-- The response as it is written. -/
def encode (r : Response) : Bytes :=
  Text.utf8 (r.statusLine ++ String.join r.headerLines ++ lineEnd) ++ r.body.getD []

end Response

end RealTimeStreaming
