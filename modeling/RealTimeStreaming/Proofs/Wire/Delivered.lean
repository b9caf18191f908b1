import Mathlib.Data.List.Forall2
import RealTimeStreaming.Proofs.Wire.Frames
import RealTimeStreaming.Proofs.Wire.Reliable
import RealTimeStreaming.Wire.Delivery

/-! What stands on the wire after a write that reported success: the message once and whole,
however the sink took it; for a packet one frame, or one datagram. -/

namespace RealTimeStreaming

namespace Sink

variable {s t : Sink}

theorem taken_pour {rest : Bytes} (h : s.pour rest = (.ok (), t)) : t.taken = s.taken ++ rest := by
  fun_induction pour s rest with
  | case1 =>
    cases h
    rw [List.append_nil]
  | case3 s rest hne call count hs hcount ih =>
    have ht := ih h
    simp only [taken, Array.toList_appendList] at ht ⊢
    rw [ht, List.append_assoc, List.take_append_drop]
  | case2 | case4 | case5 => cases h

theorem taken_write {message : Bytes} (h : s.write message = (.ok (), t)) :
    t.taken = s.taken ++ message := by
  unfold write at h
  split at h
  · rename_i p hp
    have ht : t = p.flush.2 := by rw [h]
    rw [ht, taken, wire_flush]
    exact taken_pour hp
  · cases h

/-- A payload that was sent stands on the wire as one frame, and the count is its length. -/
theorem taken_sendFrame {channel : UInt8} {payload : Bytes} {n : Nat}
    (h : s.sendFrame channel payload = (.ok n, t)) :
    ∃ frame, Frame.encode channel payload = .ok frame ∧ n = frame.length ∧
      t.taken = s.taken ++ frame := by
  unfold sendFrame at h
  split at h
  · cases h
  · rename_i frame hframe
    split at h
    · rename_i t' hw
      cases h
      exact ⟨frame, hframe, rfl, taken_write hw⟩
    · cases h

theorem sendFrame_of_reliable (h : s.behaviour.Reliable) (channel : UInt8) {payload : Bytes}
    (hp : payload.length < 65536) : ∃ n t, s.sendFrame channel payload = (.ok n, t) := by
  obtain ⟨frame, hframe⟩ := Frame.exists_encode channel hp
  have hw : s.write frame = (.ok (), (s.write frame).2) :=
    Prod.ext (write_of_reliable h frame) rfl
  refine ⟨frame.length, (s.write frame).2, ?_⟩
  unfold sendFrame
  rw [hframe]
  simp only
  rw [hw]

end Sink

/-! ### Deliveries -/

/-- How many bytes a link has carried: those the connection took and those of all datagrams. -/
def Link.written (link : Link) : Nat :=
  link.connection.taken.length + (link.datagrams.sent.toList.flatMap (·.2)).length

namespace Delivery

/-- Between two states of a link one packet was put on the wire, and nothing else. -/
def Carries (d : Delivery) (packet : Bytes) (before after : Link) : Prop :=
  match d with
  | .interleaved channel =>
    (∃ frame, Frame.encode channel packet = .ok frame ∧
      after.connection.taken = before.connection.taken ++ frame) ∧
      after.datagrams = before.datagrams
  | .datagrams destination =>
    after.datagrams.sent = before.datagrams.sent.push (destination, packet) ∧
      after.connection = before.connection

theorem carries_of_send {d : Delivery} {link after : Link} {packet : Bytes} {n : Nat}
    (h : d.send link packet = (.ok n, after)) : d.Carries packet link after := by
  cases d with
  | interleaved channel =>
    simp only [send, Prod.mk.injEq] at h
    obtain ⟨hok, rfl⟩ := h
    have hsent : link.connection.sendFrame channel packet = (.ok n, _) := Prod.ext hok rfl
    obtain ⟨frame, hframe, -, htaken⟩ := Sink.taken_sendFrame hsent
    exact ⟨⟨frame, hframe, htaken⟩, rfl⟩
  | datagrams destination =>
    simp only [send, DatagramSocket.send] at h
    split at h
    · cases h
    · cases h
      exact ⟨rfl, rfl⟩

/-- A packet that was delivered took as many bytes on the wire as the send says. -/
theorem written_send {d : Delivery} {link after : Link} {packet : Bytes} {n : Nat}
    (h : d.send link packet = (.ok n, after)) : after.written = link.written + n := by
  cases d with
  | interleaved channel =>
    simp only [send, Prod.mk.injEq] at h
    obtain ⟨hok, rfl⟩ := h
    have hsent : link.connection.sendFrame channel packet = (.ok n, _) := Prod.ext hok rfl
    obtain ⟨frame, -, rfl, htaken⟩ := Sink.taken_sendFrame hsent
    simp only [Link.written, htaken, List.length_append]
    omega
  | datagrams destination =>
    simp only [send, DatagramSocket.send] at h
    split at h
    · cases h
    · cases h
      simp only [Link.written, Array.toList_push, List.flatMap_append, List.length_append,
        List.flatMap_singleton]
      omega

/-- A link that gets a packet of the given length through. -/
def Works (d : Delivery) (link : Link) (length : Nat) : Prop :=
  match d with
  | .interleaved _ => link.connection.behaviour.Reliable ∧ length < 65536
  | .datagrams destination => ∀ packet : Bytes, packet.length = length →
      link.datagrams.refuse link.datagrams.attempts destination packet = none

theorem send_of_works {d : Delivery} {link : Link} {packet : Bytes}
    (h : d.Works link packet.length) : ∃ n after, d.send link packet = (.ok n, after) := by
  cases d with
  | interleaved channel =>
    obtain ⟨n, sink, hsent⟩ := Sink.sendFrame_of_reliable h.1 channel h.2
    exact ⟨n, { link with connection := sink }, by simp only [send, hsent]⟩
  | datagrams destination =>
    exact ⟨packet.length, _, by simp only [send, DatagramSocket.send, h packet rfl]; rfl⟩

/-- Between two states of a link these packets were put on the wire in order, and nothing else. -/
def CarriesAll (d : Delivery) (packets : List Bytes) (before after : Link) : Prop :=
  match d with
  | .interleaved channel =>
    (∃ frames, List.Forall₂ (fun packet frame => Frame.encode channel packet = .ok frame)
        packets frames ∧
      after.connection.taken = before.connection.taken ++ frames.flatten) ∧
      after.datagrams = before.datagrams
  | .datagrams destination =>
    after.datagrams.sent.toList =
        before.datagrams.sent.toList ++ packets.map (destination, ·) ∧
      after.connection = before.connection

theorem carriesAll_nil (d : Delivery) (link : Link) : d.CarriesAll [] link link := by
  cases d with
  | interleaved channel => exact ⟨⟨[], .nil, (List.append_nil _).symm⟩, rfl⟩
  | datagrams destination => exact ⟨(List.append_nil _).symm, rfl⟩

theorem carriesAll_cons {d : Delivery} {packet : Bytes} {packets : List Bytes}
    {link next after : Link} (h : d.Carries packet link next)
    (hs : d.CarriesAll packets next after) : d.CarriesAll (packet :: packets) link after := by
  cases d with
  | interleaved channel =>
    obtain ⟨⟨frame, hframe, htaken⟩, hkeeps⟩ := h
    obtain ⟨⟨frames, hframes, htaken'⟩, hkeeps'⟩ := hs
    refine ⟨⟨frame :: frames, .cons hframe hframes, ?_⟩, hkeeps'.trans hkeeps⟩
    rw [htaken', htaken, List.flatten_cons, List.append_assoc]
  | datagrams destination =>
    obtain ⟨hsent, hkeeps⟩ := h
    obtain ⟨hsent', hkeeps'⟩ := hs
    refine ⟨?_, hkeeps'.trans hkeeps⟩
    rw [hsent', hsent, Array.toList_push, List.map_cons, List.append_assoc]
    rfl

theorem carriesAll_append {d : Delivery} {packets more : List Bytes} {link next after : Link}
    (h : d.CarriesAll packets link next) (hs : d.CarriesAll more next after) :
    d.CarriesAll (packets ++ more) link after := by
  cases d with
  | interleaved channel =>
    obtain ⟨⟨frames, hframes, htaken⟩, hkeeps⟩ := h
    obtain ⟨⟨others, hothers, htaken'⟩, hkeeps'⟩ := hs
    refine ⟨⟨frames ++ others, List.rel_append hframes hothers, ?_⟩, hkeeps'.trans hkeeps⟩
    rw [htaken', htaken, List.flatten_append, List.append_assoc]
  | datagrams destination =>
    obtain ⟨hsent, hkeeps⟩ := h
    obtain ⟨hsent', hkeeps'⟩ := hs
    refine ⟨?_, hkeeps'.trans hkeeps⟩
    rw [hsent', hsent, List.map_append, List.append_assoc]

end Delivery

end RealTimeStreaming
