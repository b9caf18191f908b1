/-! The size bounds of a request. They are 64-bit words, as are all sizes that a peer may
announce. A sum of them that leaves the words wraps, unless the machine checks it (`Arithmetic`). -/

namespace RealTimeStreaming

/-- How many bytes each part of a request may take, so that no peer can make the receiver
wait on a part that never ends. -/
structure Limits where
  method : UInt64 := 32
  uri : UInt64 := 512
  headerLine : UInt64 := 1024
  body : UInt64 := 65536
deriving DecidableEq, Repr

/-- The longest version line, fixed since only one version is known. -/
def Limits.versionLine : UInt64 := 32

end RealTimeStreaming
