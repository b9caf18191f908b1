import RealTimeStreaming.Wire.Error

/-! Byte sinks. A sink answers every write call as it likes: it takes some of the bytes
offered, is interrupted, or fails. `Sink.write` turns such calls into the writing of whole
messages: it goes on after a short write, tries again after an interruption, and flushes
at the end. What a sink has taken stays on the wire, also of a message that failed. -/

namespace RealTimeStreaming

/-- What a sink does with one write call. -/
inductive Answer where
  | takes (count : Nat)
  | interrupted
  | fails (error : IoError)
deriving DecidableEq, Repr

/-- How a sink answers: a write call by its number, the count of bytes taken before and
the bytes offered; a flush by its number and the count of bytes taken. -/
structure Behaviour where
  write : (call taken : Nat) → (offered : Bytes) → Answer
  flush : (call taken : Nat) → Option IoError := fun _ _ => none
  /-- How many interruptions in a row may come. -/
  patience : Nat := 0
  settles : ∀ call taken offered, ∃ i ≤ patience, write (call + i) taken offered ≠ .interrupted

namespace Behaviour

/-- A sink that takes all it is offered. -/
def accepting : Behaviour where
  write _ _ offered := .takes offered.length
  settles _ _ _ := ⟨0, Nat.le_refl 0, by simp⟩

/-- Makes a write call until it is not interrupted; also gives the number of the last
call. -/
def settle (b : Behaviour) (taken : Nat) (offered : Bytes) : (tries call : Nat) → Nat × Answer
  | 0, call => (call, b.write call taken offered)
  | tries + 1, call =>
    match b.write call taken offered with
    | .interrupted => b.settle taken offered tries (call + 1)
    | answer => (call, answer)

end Behaviour

structure Sink where
  behaviour : Behaviour := .accepting
  writeCalls : Nat := 0
  flushCalls : Nat := 0
  /-- All bytes taken so far. -/
  wire : Array UInt8 := #[]

namespace Sink

/-- The bytes taken so far. -/
def taken (s : Sink) : Bytes :=
  s.wire.toList

/-- Offers bytes until all of them are taken. A sink that takes none of them fails the
message. -/
def pour (s : Sink) (rest : Bytes) : Except IoError Unit × Sink :=
  if rest = [] then (.ok (), s)
  else
    match s.behaviour.settle s.wire.size rest s.behaviour.patience s.writeCalls with
    | (call, .takes count) =>
      if count = 0 then (.error .nothingAccepted, { s with writeCalls := call + 1 })
      else
        pour { s with writeCalls := call + 1, wire := s.wire ++ rest.take count }
          (rest.drop count)
    | (call, .fails error) => (.error error, { s with writeCalls := call + 1 })
    | (call, .interrupted) =>
      (.error (.plain .interrupted), { s with writeCalls := call + 1 })
termination_by rest.length
decreasing_by
  rename_i h hc
  have := List.length_pos_iff.2 h
  simp only [List.length_drop]
  omega

def flush (s : Sink) : Except IoError Unit × Sink :=
  (match s.behaviour.flush s.flushCalls s.wire.size with
    | none => .ok ()
    | some error => .error error,
    { s with flushCalls := s.flushCalls + 1 })

/-- Writes one whole message and flushes. -/
def write (s : Sink) (message : Bytes) : Except IoError Unit × Sink :=
  match s.pour message with
  | (.ok (), s) => s.flush
  | (.error error, s) => (.error error, s)

@[simp] theorem pour_nil (s : Sink) : s.pour [] = (.ok (), s) := by
  unfold pour
  simp

@[simp] theorem wire_flush (s : Sink) : s.flush.2.wire = s.wire := rfl

end Sink

end RealTimeStreaming
