import RealTimeStreaming.Wire.Frame

/-! Sinks that never fail. They may still take a message bit by bit and be interrupted; the
writing of whole messages hides that, so every message comes through. -/

namespace RealTimeStreaming

/-- A sink that takes at least one byte of all it is offered, unless it is interrupted, and
can be flushed at any time. -/
structure Behaviour.Reliable (b : Behaviour) : Prop where
  write : ∀ call taken offered, offered ≠ [] →
    b.write call taken offered = .interrupted ∨
      ∃ count, 0 < count ∧ b.write call taken offered = .takes count
  flush : ∀ call taken, b.flush call taken = none

theorem Behaviour.reliable_accepting : accepting.Reliable where
  write _ _ offered h := .inr ⟨offered.length, List.length_pos_iff.2 h, rfl⟩
  flush _ _ := rfl

namespace Behaviour

/-- The call that settles a write is one of the calls, and not interrupted if one of those
tried is not. -/
theorem settle_eq (b : Behaviour) (taken : Nat) (offered : Bytes) (tries call : Nat) :
    (b.settle taken offered tries call).2 =
        b.write (b.settle taken offered tries call).1 taken offered ∧
      ((∃ i ≤ tries, b.write (call + i) taken offered ≠ .interrupted) →
        (b.settle taken offered tries call).2 ≠ .interrupted) := by
  induction tries generalizing call with
  | zero =>
    refine ⟨rfl, ?_⟩
    rintro ⟨i, hi, hw⟩
    obtain rfl : i = 0 := by omega
    exact hw
  | succ tries ih =>
    unfold settle
    split
    · rename_i hint
      refine ⟨(ih (call + 1)).1, ?_⟩
      rintro ⟨i, hi, hw⟩
      cases i with
      | zero => exact absurd hint hw
      | succ i =>
        refine (ih (call + 1)).2 ⟨i, by omega, ?_⟩
        rwa [Nat.add_assoc, Nat.add_comm 1 i]
    · rename_i hne
      exact ⟨rfl, fun _ => hne⟩

/-- A write that is interrupted settles within the tries there are. -/
theorem settle_ne_interrupted (b : Behaviour) (taken : Nat) (offered : Bytes) (call : Nat) :
    (b.settle taken offered b.patience call).2 ≠ .interrupted :=
  (b.settle_eq taken offered b.patience call).2 (b.settles call taken offered)

theorem Reliable.settle_takes {b : Behaviour} (h : b.Reliable) {offered : Bytes}
    (hne : offered ≠ []) (taken call : Nat) :
    ∃ last count, 0 < count ∧ b.settle taken offered b.patience call = (last, .takes count) := by
  have heq := (b.settle_eq taken offered b.patience call).1
  rcases h.write (b.settle taken offered b.patience call).1 taken offered hne with hi | hc
  · exact absurd (heq.trans hi) (b.settle_ne_interrupted taken offered call)
  · obtain ⟨count, hpos, hc⟩ := hc
    exact ⟨_, count, hpos, Prod.ext rfl (heq.trans hc)⟩

end Behaviour

namespace Sink

/-! ### The behaviour of a sink stays -/

theorem behaviour_pour (s : Sink) (rest : Bytes) : (s.pour rest).2.behaviour = s.behaviour := by
  fun_induction pour s rest with
  | case3 s rest hne call count hs hcount ih => exact ih
  | case1 | case2 | case4 | case5 => rfl

theorem behaviour_write (s : Sink) (message : Bytes) :
    (s.write message).2.behaviour = s.behaviour := by
  have hp := s.behaviour_pour message
  unfold write
  split <;> rename_i ht <;> rw [ht] at hp <;> exact hp

theorem behaviour_sendFrame (s : Sink) (channel : UInt8) (payload : Bytes) :
    (s.sendFrame channel payload).2.behaviour = s.behaviour := by
  unfold sendFrame
  split
  · rfl
  · rename_i frame _
    have hw := s.behaviour_write frame
    split <;> rename_i ht <;> rw [ht] at hw <;> exact hw

/-! ### Messages to a reliable sink -/

theorem pour_of_reliable {s : Sink} (h : s.behaviour.Reliable) (rest : Bytes) :
    (s.pour rest).1 = .ok () := by
  fun_induction pour s rest with
  | case1 => rfl
  | case2 s rest hne call hs =>
    obtain ⟨last, count, hpos, hc⟩ := h.settle_takes hne s.wire.size s.writeCalls
    rw [hc] at hs
    cases hs
    omega
  | case3 s rest hne call count hs hcount ih => exact ih h
  | case4 s rest hne call error hs =>
    obtain ⟨last, count, hpos, hc⟩ := h.settle_takes hne s.wire.size s.writeCalls
    rw [hc] at hs
    cases hs
  | case5 s rest hne call hs =>
    obtain ⟨last, count, hpos, hc⟩ := h.settle_takes hne s.wire.size s.writeCalls
    rw [hc] at hs
    cases hs

theorem write_of_reliable {s : Sink} (h : s.behaviour.Reliable) (message : Bytes) :
    (s.write message).1 = .ok () := by
  have hok := pour_of_reliable h message
  have hb := s.behaviour_pour message
  unfold write
  split
  · rename_i t ht
    rw [ht] at hb
    have hf : t.behaviour.flush t.flushCalls t.wire.size = none := by
      rw [hb]
      exact h.flush _ _
    simp only [flush, hf]
  · rename_i error t ht
    rw [ht] at hok
    cases hok

end Sink

end RealTimeStreaming
