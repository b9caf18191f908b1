import RealTimeStreaming.Wire.Sink

/-! Sinks described by a few numbers: how much they take per call, how often they are
interrupted, how much they take at all and how they fail after that. -/

namespace RealTimeStreaming

structure SinkScript where
  /-- Every so many write calls one is interrupted; below two, none is. -/
  interruptEvery : Nat := 0
  /-- The most bytes taken by one call. -/
  maxWrite : Option Nat := none
  /-- The most bytes taken at all. -/
  budget : Option Nat := none
  /-- How a call fails that has room for nothing, of a sink with a budget; without a kind it
  takes no bytes. -/
  failure : Option IoErrorKind := some .brokenPipe
  flushFails : Bool := false
deriving DecidableEq, Repr

namespace SinkScript

/-- Calls are counted from one, and interrupted ones count too. -/
def interrupts (s : SinkScript) (call : Nat) : Bool :=
  2 ≤ s.interruptEvery && (call + 1) % s.interruptEvery == 0

/-- How many of the bytes offered one call has room for. -/
def room (s : SinkScript) (offered : Bytes) : Nat :=
  match s.maxWrite with
  | none => offered.length
  | some most => (offered.take most).length

/-- What a call that is not interrupted does. A sink with a budget fails when it can take
nothing, whether the budget is spent or a call takes no bytes at all. -/
def respond (s : SinkScript) (taken : Nat) (offered : Bytes) : Answer :=
  match s.budget with
  | none => .takes (s.room offered)
  | some budget =>
    match (s.room offered).min (budget - taken), s.failure with
    | 0, some kind => .fails (.plain kind)
    | n, _ => .takes n

def write (s : SinkScript) (call taken : Nat) (offered : Bytes) : Answer :=
  if s.interrupts call then .interrupted else s.respond taken offered

def flush (s : SinkScript) : Option IoError :=
  if s.flushFails then some (.plain (s.failure.getD .writeZero)) else none

theorem respond_ne_interrupted (s : SinkScript) (taken : Nat) (offered : Bytes) :
    s.respond taken offered ≠ .interrupted := by
  simp only [respond]
  split
  · simp
  · split <;> simp

/-- No two calls in a row are interrupted. -/
theorem interrupts_succ (s : SinkScript) {call : Nat} (h : s.interrupts call) :
    s.interrupts (call + 1) = false := by
  simp only [interrupts, Bool.and_eq_true, decide_eq_true_eq, beq_iff_eq, Bool.and_eq_false_iff,
    decide_eq_false_iff_not, beq_eq_false_iff_ne] at h ⊢
  obtain ⟨hk, h0⟩ := h
  right
  rw [Nat.add_mod, h0, Nat.zero_add, Nat.mod_mod, Nat.mod_eq_of_lt (by omega)]
  omega

def toBehaviour (s : SinkScript) : Behaviour where
  write := s.write
  flush _ _ := s.flush
  patience := 1
  settles call taken offered := by
    by_cases h : s.interrupts call
    · exact ⟨1, Nat.le_refl 1, by simp [write, s.interrupts_succ h, respond_ne_interrupted]⟩
    · exact ⟨0, Nat.zero_le 1, by simp [write, h, respond_ne_interrupted]⟩

def toSink (s : SinkScript) : Sink :=
  { behaviour := s.toBehaviour }

end SinkScript

end RealTimeStreaming
