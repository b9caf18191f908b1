/-! A source of random words, given as the sequence that it yields. -/

namespace RealTimeStreaming

structure RandomSource where
  word : Nat → UInt32
  drawn : Nat := 0

namespace RandomSource

def draw32 (s : RandomSource) : UInt32 × RandomSource :=
  (s.word s.drawn, { s with drawn := s.drawn + 1 })

/-- The low half of one word. -/
def draw16 (s : RandomSource) : UInt16 × RandomSource :=
  let (w, s) := s.draw32
  (w.toUInt16, s)

/-- Two words, the low one first. -/
def draw64 (s : RandomSource) : UInt64 × RandomSource :=
  let (low, s) := s.draw32
  let (high, s) := s.draw32
  (high.toUInt64 <<< 32 ||| low.toUInt64, s)

end RandomSource

end RealTimeStreaming
