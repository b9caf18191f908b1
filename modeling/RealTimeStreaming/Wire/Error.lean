import RealTimeStreaming.Request.Error

/-! What can go wrong outside the bytes of a request: failures of the byte sinks and
sockets, packets that no frame can carry, and calls to a server in the wrong state. -/

namespace RealTimeStreaming

/-- The kinds of failure that a sink or socket reports. -/
inductive IoErrorKind where
  | brokenPipe
  | connectionReset
  | connectionAborted
  | notConnected
  | permissionDenied
  | wouldBlock
  | timedOut
  | unexpectedEof
  | interrupted
  | writeZero
  | invalidInput
  | networkUnreachable
  | addressNotAvailable
  | uncategorized
  | other
deriving DecidableEq, Repr

def IoErrorKind.text : IoErrorKind → String
  | .brokenPipe => "broken pipe"
  | .connectionReset => "connection reset"
  | .connectionAborted => "connection aborted"
  | .notConnected => "not connected"
  | .permissionDenied => "permission denied"
  | .wouldBlock => "operation would block"
  | .timedOut => "timed out"
  | .unexpectedEof => "unexpected end of file"
  | .interrupted => "operation interrupted"
  | .writeZero => "write zero"
  | .invalidInput => "invalid input parameter"
  | .networkUnreachable => "network unreachable"
  | .addressNotAvailable => "address not available"
  | .uncategorized => "uncategorized error"
  | .other => "other error"

inductive IoError where
  /-- Only the kind is known. -/
  | plain (kind : IoErrorKind)
  /-- A sink accepted none of the bytes that were left. -/
  | nothingAccepted
  | networkUnreachable
  /-- A datagram is longer than the network carries. -/
  | messageTooLong
  /-- An address to bind has no port part. -/
  | invalidSocketAddress
  | invalidPort
  /-- The name of a host holds a NUL character. -/
  | nulInName
  /-- No host can have the name. -/
  | unknownHost
  /-- A name service may know the name, but none answers. -/
  | nameServiceSilent
  /-- An address to bind is not one of this machine. -/
  | addressNotAvailable
deriving DecidableEq, Repr

namespace IoError

def kind : IoError → IoErrorKind
  | .plain kind => kind
  | .nothingAccepted => .writeZero
  | .networkUnreachable => .networkUnreachable
  | .messageTooLong => .uncategorized
  | .invalidSocketAddress => .invalidInput
  | .invalidPort => .invalidInput
  | .nulInName => .invalidInput
  | .unknownHost => .uncategorized
  | .nameServiceSilent => .uncategorized
  | .addressNotAvailable => .addressNotAvailable

def message : IoError → String
  | .plain kind => kind.text
  | .nothingAccepted => "failed to write whole buffer"
  | .networkUnreachable => "Network is unreachable (os error 101)"
  | .messageTooLong => "Message too long (os error 90)"
  | .invalidSocketAddress => "invalid socket address"
  | .invalidPort => "invalid port value"
  | .nulInName => "file name contained an unexpected NUL byte"
  | .unknownHost => "failed to lookup address information: Name or service not known"
  | .nameServiceSilent =>
    "failed to lookup address information: Temporary failure in name resolution"
  | .addressNotAvailable => "Cannot assign requested address (os error 99)"

end IoError

inductive RtspError where
  | io (error : IoError)
  | parse (error : ParseError)
  /-- A frame announces its length in 16 bits. -/
  | frameTooLarge (length : Nat)
  | notStarted
  | alreadyRunning
deriving DecidableEq, Repr

def RtspError.message : RtspError → String
  | .io error => s!"I/O error: {error.message}"
  | .parse error => s!"RTSP parse error: {error.message}"
  | .frameTooLarge length => s!"packet of {length} bytes does not fit an interleaved frame"
  | .notStarted => "server not started"
  | .alreadyRunning => "server already running"

end RealTimeStreaming
