import RealTimeStreaming.Text.Utf8

/-! Why a byte stream is not a request. Each cause keeps the offending text, malformed
UTF-8 replaced, so the message can be written after the bytes are gone. -/

namespace RealTimeStreaming

/-- The kind of text that stands at some place of a request. -/
inductive TokenKind where
  | integer
  | identifier
  | headerName
  | requestUri
  | text
deriving DecidableEq, Repr

def TokenKind.label : TokenKind → String
  | .integer => "Integer"
  | .identifier => "Identifier"
  | .headerName => "Header name"
  | .requestUri => "Request-URI"
  | .text => "Text"

inductive ParseError where
  /-- The body length is no number or exceeds the limit. -/
  | contentLength (value : String)
  /-- A fixed text was not found. -/
  | literalMismatch (expected actual : String)
  /-- A token does not belong to its kind. -/
  | kindMismatch (kind : TokenKind) (actual : String)
  /-- More distinct headers than the map can hold. -/
  | headersFull
  /-- A token or line is longer than its limit. -/
  | tooLong (kind : TokenKind) (limit : UInt64)
  /-- The sequence number that every request carries is absent. -/
  | missingCSeq
deriving DecidableEq, Repr

namespace ParseError

def literal (expected : String) (actual : Bytes) : ParseError :=
  .literalMismatch expected (Text.lossy actual)

def token (kind : TokenKind) (actual : Bytes) : ParseError :=
  .kindMismatch kind (Text.lossy actual)

def message : ParseError → String
  | .contentLength value => s!"Invalid Content-Length `{value}`."
  | .literalMismatch expected actual =>
    s!"String mismatch: expected `{expected}`, found `{actual}`."
  | .kindMismatch kind actual => s!"Type mismatch: expected {kind.label}, found `{actual}`."
  | .headersFull => "Not enough space left in the header map."
  | .tooLong kind limit => s!"{kind.label} exceeds the {limit}-byte limit."
  | .missingCSeq => "Missing mandatory `CSeq` header."

/-- The request may be well-formed but is larger than the receiver accepts. -/
def isCapacity : ParseError → Bool
  | .headersFull => true
  | .tooLong .. => true
  | _ => false

end ParseError

end RealTimeStreaming
