import RealTimeStreaming.Proofs.Wire.Delivered
import RealTimeStreaming.Wire.SinkScript

/-! Messages that did not come through. A sink keeps what it took of them, so a wire can end in a
torn frame; the frames before it are whole. Where a refusal is final, as with the sinks that a
few numbers describe, nothing ever stands behind a torn frame. -/

namespace RealTimeStreaming

/-! ### Final refusals -/

namespace Behaviour

/-- Once this many bytes are taken, no more are. -/
def Shut (b : Behaviour) (taken : Nat) : Prop :=
  ∀ call offered count, offered ≠ [] → b.write call taken offered = .takes count → count = 0

/-- A sink that refuses bytes once refuses them ever after. -/
def Final (b : Behaviour) : Prop :=
  ∀ call taken offered, offered ≠ [] →
    (b.write call taken offered = .takes 0 ∨ ∃ error, b.write call taken offered = .fails error) →
    b.Shut taken

/-- All flushes end the same way. -/
def FlushesAs (b : Behaviour) (outcome : Option IoError) : Prop :=
  ∀ call taken, b.flush call taken = outcome

end Behaviour

namespace SinkScript

variable (s : SinkScript)

theorem room_eq_zero {offered : Bytes} (hne : offered ≠ []) :
    s.room offered = 0 ↔ s.maxWrite = some 0 := by
  unfold room
  cases s.maxWrite with
  | none => simp [hne]
  | some most => simp [hne]

/-- A call that may take nothing: every call may, or the budget is spent. -/
def Refuses (taken : Nat) : Prop :=
  s.maxWrite = some 0 ∨ ∃ budget ∈ s.budget, budget ≤ taken

theorem refuses_of_respond {taken : Nat} {offered : Bytes} (hne : offered ≠ [])
    (h : s.respond taken offered = .takes 0 ∨ ∃ error, s.respond taken offered = .fails error) :
    s.Refuses taken := by
  unfold respond at h
  split at h
  · obtain h | ⟨error, h⟩ := h
    · rw [Answer.takes.injEq] at h
      exact .inl ((s.room_eq_zero hne).1 h)
    · cases h
  · rename_i budget hbudget
    have hmin : (s.room offered).min (budget - taken) = 0 := by
      split at h
      · assumption
      · simpa using h
    rcases Nat.le_total (s.room offered) (budget - taken) with hle | hle
    · exact .inl ((s.room_eq_zero hne).1 ((Nat.min_eq_left hle).symm.trans hmin))
    · have hspent : budget - taken = 0 := (Nat.min_eq_right hle).symm.trans hmin
      exact .inr ⟨budget, hbudget, by omega⟩

theorem eq_zero_of_refuses {taken count : Nat} {offered : Bytes} (hne : offered ≠ [])
    (h : s.Refuses taken) (hc : s.respond taken offered = .takes count) : count = 0 := by
  unfold respond at hc
  obtain hmost | ⟨budget, hbudget, hspent⟩ := h
  · have hroom := (s.room_eq_zero hne).2 hmost
    split at hc
    · cases hc
      exact hroom
    · rw [hroom] at hc
      split at hc
      · cases hc
      · cases hc
        exact Nat.zero_min _
  · simp only [Option.mem_def.1 hbudget, Nat.sub_eq_zero_of_le hspent] at hc
    split at hc
    · cases hc
    · cases hc
      exact Nat.min_zero _

/-- The sinks that a few numbers describe never take bytes again after a refusal. -/
theorem final_toBehaviour : s.toBehaviour.Final := by
  intro call taken offered hne hrefused call' offered' count hne' hcount
  have hrefuses : s.Refuses taken := by
    apply s.refuses_of_respond hne
    simp only [toBehaviour, write] at hrefused
    split at hrefused
    · simp at hrefused
    · exact hrefused
  simp only [toBehaviour, write] at hcount
  split at hcount
  · cases hcount
  · exact s.eq_zero_of_refuses hne' hrefuses hcount

end SinkScript

/-! ### Torn messages -/

namespace Sink

variable {s t : Sink} {error : IoError}

/-- A message that did not come through stands on the wire in part, and the sink is shut. -/
theorem torn_of_pour {rest : Bytes} (hf : s.behaviour.Final) (h : s.pour rest = (.error error, t)) :
    ∃ n < rest.length, t.taken = s.taken ++ rest.take n ∧ t.behaviour.Shut t.wire.size := by
  fun_induction pour s rest with
  | case1 => cases h
  | case2 s rest hne call hs =>
    cases h
    have hw := (s.behaviour.settle_eq s.wire.size rest s.behaviour.patience s.writeCalls).1
    rw [hs] at hw
    exact ⟨0, List.length_pos_iff.2 hne, by simp [taken], hf _ _ _ hne (.inl hw.symm)⟩
  | case3 s rest hne call count hs hcount ih =>
    obtain ⟨n, hn, htaken, hshut⟩ := ih hf h
    rw [List.length_drop] at hn
    refine ⟨count + n, by omega, ?_, hshut⟩
    rw [htaken, List.take_add, taken, Array.toList_appendList, List.append_assoc]
    rfl
  | case4 s rest hne call failure hs =>
    cases h
    have hw := (s.behaviour.settle_eq s.wire.size rest s.behaviour.patience s.writeCalls).1
    rw [hs] at hw
    exact ⟨0, List.length_pos_iff.2 hne, by simp [taken], hf _ _ _ hne (.inr ⟨_, hw.symm⟩)⟩
  | case5 s rest hne call hs =>
    exact absurd (congrArg Prod.snd hs) (s.behaviour.settle_ne_interrupted _ _ _)

/-- A sink that is shut takes nothing of a message. -/
theorem pour_of_shut {rest : Bytes} (hne : rest ≠ []) (hs : s.behaviour.Shut s.wire.size) :
    ∃ error t, s.pour rest = (.error error, t) ∧ t.wire = s.wire := by
  have hw := (s.behaviour.settle_eq s.wire.size rest s.behaviour.patience s.writeCalls).1
  unfold pour
  rw [if_neg hne]
  split
  · rename_i call count hsettle
    rw [hsettle] at hw
    rw [if_pos (hs _ _ _ hne hw.symm)]
    exact ⟨_, _, rfl, rfl⟩
  · exact ⟨_, _, rfl, rfl⟩
  · exact ⟨_, _, rfl, rfl⟩

theorem isOk_flush {outcome : Option IoError} (h : s.behaviour.FlushesAs outcome) :
    s.flush.1.isOk = outcome.isNone := by
  simp only [flush, h s.flushCalls s.wire.size]
  cases outcome <;> rfl

/-- Where a frame can be after it was sent. It is counted as sent if the flush behind it works,
although it is on the wire either way. -/
theorem sendFrame_cases {outcome : Option IoError} (hf : s.behaviour.Final)
    (ho : s.behaviour.FlushesAs outcome) (channel : UInt8) (payload : Bytes) :
    (∃ e, s.sendFrame channel payload = (.error e, s)) ∨
    (∃ frame result t, Frame.encode channel payload = .ok frame ∧
      s.sendFrame channel payload = (result, t) ∧ t.taken = s.taken ++ frame ∧
      result.isOk = outcome.isNone) ∨
    ∃ frame e t n, Frame.encode channel payload = .ok frame ∧
      s.sendFrame channel payload = (.error e, t) ∧ n < frame.length ∧
      t.taken = s.taken ++ frame.take n ∧ t.behaviour.Shut t.wire.size := by
  rcases hencode : Frame.encode channel payload with e | frame
  · exact .inl ⟨e, by simp only [sendFrame, hencode]⟩
  · right
    have hkeeps := s.behaviour_pour frame
    rcases hpour : s.pour frame with ⟨⟨error⟩ | ⟨⟩, t⟩
    · right
      obtain ⟨n, hn, htaken, hshut⟩ := torn_of_pour hf hpour
      exact ⟨frame, .io error, t, n, rfl, by simp only [sendFrame, hencode, write, hpour], hn,
        htaken, hshut⟩
    · left
      rw [hpour] at hkeeps
      have htaken : t.flush.2.taken = s.taken ++ frame := by
        rw [taken, wire_flush]
        exact taken_pour hpour
      have hflush : t.flush.1.isOk = outcome.isNone := by
        apply isOk_flush
        rw [hkeeps]
        exact ho
      rcases hu : t.flush with ⟨⟨error⟩ | ⟨⟩, u⟩ <;> rw [hu] at htaken hflush
      · exact ⟨frame, .error (.io error), u, rfl,
          by simp only [sendFrame, hencode, write, hpour, hu], htaken, hflush⟩
      · exact ⟨frame, .ok frame.length, u, rfl,
          by simp only [sendFrame, hencode, write, hpour, hu], htaken, hflush⟩

theorem sendFrame_of_shut (hs : s.behaviour.Shut s.wire.size) (channel : UInt8) (payload : Bytes) :
    ∃ e t, s.sendFrame channel payload = (.error e, t) ∧ t.wire = s.wire := by
  rcases hencode : Frame.encode channel payload with e | frame
  · exact ⟨e, s, by simp only [sendFrame, hencode], rfl⟩
  · obtain ⟨error, t, hpour, hwire⟩ := pour_of_shut (Frame.ne_nil_of_encode hencode) hs
    exact ⟨.io error, t, by simp only [sendFrame, hencode, write, hpour], hwire⟩

end Sink

end RealTimeStreaming
