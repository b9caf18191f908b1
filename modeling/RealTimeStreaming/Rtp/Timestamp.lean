/-! Timestamps as callers give them: in units of the stream's clock, or in microseconds
of a system clock, which are scaled. On the wire a timestamp has 32 bits and wraps. -/

namespace RealTimeStreaming.Rtp

inductive Timestamp where
  | raw (ticks : UInt32)
  | microseconds (us : UInt64)
deriving DecidableEq, Repr

/-- The timestamp in units of `rate` per second, rounded down. -/
def Timestamp.toClock (t : Timestamp) (rate : UInt32) : UInt32 :=
  match t with
  | .raw ticks => ticks
  | .microseconds us => (us.toNat * rate.toNat / 1000000).toUInt32

end RealTimeStreaming.Rtp
