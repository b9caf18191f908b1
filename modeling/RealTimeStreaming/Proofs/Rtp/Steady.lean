import RealTimeStreaming.Proofs.Rtp.Receiver

/-! Links that never fail a packet up to some length, whatever was sent before. Frames on a
connection that takes all bytes are such a link, and so are datagrams that no host refuses; over
them every send of a stream succeeds. -/

namespace RealTimeStreaming

namespace Delivery

/-- Packets up to the limit get through, one after the other. -/
def Steady (d : Delivery) (limit : Nat) (link : Link) : Prop :=
  ∀ packets : List Bytes, (∀ packet ∈ packets, packet.length ≤ limit) →
    ∀ call ∈ Rtp.history (fun packet link => d.send link packet) packets link,
      call.result.isOk = true

variable {d : Delivery} {limit : Nat} {link : Link}

theorem send_of_steady (h : d.Steady limit link) {packet : Bytes} (hp : packet.length ≤ limit) :
    ∃ n after, d.send link packet = (.ok n, after) ∧ d.Steady limit after := by
  have hcalls (more : List Bytes) (hmore : ∀ packet ∈ more, packet.length ≤ limit) :=
    h (packet :: more) (List.forall_mem_cons.2 ⟨hp, hmore⟩)
  simp only [Rtp.history, List.forall_mem_cons] at hcalls
  rcases hs : d.send link packet with ⟨⟨e⟩ | ⟨n⟩, after⟩
  · rw [hs] at hcalls
    cases (hcalls [] (by simp)).1
  · refine ⟨n, after, rfl, fun more hmore => ?_⟩
    rw [hs] at hcalls
    exact (hcalls more hmore).2

/-- What makes one send succeed and outlives it makes a link steady. -/
theorem steady_of_invariant (holds : Link → Prop)
    (hsend : ∀ packet link, packet.length ≤ limit → holds link →
      ∃ n after, d.send link packet = (.ok n, after) ∧ holds after)
    (h : holds link) : d.Steady limit link := by
  intro packets
  induction packets generalizing link with
  | nil => simp [Rtp.history]
  | cons packet packets ih =>
    intro hlimit
    rw [List.forall_mem_cons] at hlimit
    obtain ⟨n, after, hs, hafter⟩ := hsend packet link hlimit.1 h
    simp only [Rtp.history, hs, List.forall_mem_cons]
    exact ⟨rfl, ih hafter hlimit.2⟩

theorem steady_interleaved (hr : link.connection.behaviour.Reliable) (hlimit : limit < 65536)
    (channel : UInt8) : (interleaved channel).Steady limit link := by
  apply steady_of_invariant (fun link => link.connection.behaviour.Reliable) _ hr
  intro packet link hp hr
  obtain ⟨n, sink, hs⟩ :=
    Sink.sendFrame_of_reliable hr channel (Nat.lt_of_le_of_lt hp hlimit)
  have hkeeps := link.connection.behaviour_sendFrame channel packet
  rw [hs] at hkeeps
  refine ⟨n, { link with connection := sink }, by simp only [send, hs], ?_⟩
  rwa [hkeeps]

theorem steady_datagrams {destination : Endpoint}
    (h : ∀ attempt (packet : Bytes), packet.length ≤ limit →
      link.datagrams.refuse attempt destination packet = none) :
    (datagrams destination).Steady limit link := by
  apply steady_of_invariant (fun link => ∀ attempt (packet : Bytes), packet.length ≤ limit →
    link.datagrams.refuse attempt destination packet = none) _ h
  intro packet link hp hrefuse
  refine ⟨packet.length, _, by simp only [send, DatagramSocket.send, hrefuse _ packet hp]; rfl, ?_⟩
  exact hrefuse

/-! ### Counts -/

/-- How many bytes a delivery adds to a packet. -/
def overhead : Delivery → Nat
  | .interleaved _ => Frame.headerLength
  | .datagrams _ => 0

theorem count_send {packet : Bytes} {n : Nat} {after : Link}
    (h : d.send link packet = (.ok n, after)) : n = d.overhead + packet.length := by
  cases d with
  | interleaved channel =>
    simp only [send, Prod.mk.injEq] at h
    have hsent : link.connection.sendFrame channel packet = (.ok n, _) := Prod.ext h.1 rfl
    obtain ⟨frame, hframe, rfl, -⟩ := Sink.taken_sendFrame hsent
    exact Frame.length_of_encode hframe
  | datagrams destination =>
    simp only [send, DatagramSocket.send] at h
    split at h
    · cases h
    · cases h
      exact (Nat.zero_add _).symm

end Delivery

namespace Rtp

/-- How long the packet is. -/
def Sending.size (x : Sending) : Nat :=
  Header.length + (x.head ++ x.payload).length

namespace Sender

variable {s : Sender} {limit : Nat} {link : Link}

/-- A send over a steady link succeeds, and its count is known beforehand. -/
theorem perform_of_steady (h : s.delivery.Steady limit link) {x : Sending} (hx : x.size ≤ limit) :
    ∃ after, perform x (s, link) = (.ok (s.delivery.overhead + x.size), s.advance 1, after) ∧
      s.delivery.Carries (s.packet x.timestamp x.marker x.head x.payload) link after ∧
      s.delivery.Steady limit after := by
  have hlength : (s.packet x.timestamp x.marker x.head x.payload).length = x.size := length_packet
  obtain ⟨n, after, hsent, hsteady⟩ := Delivery.send_of_steady h (hlength.le.trans hx)
  have hcount := Delivery.count_send hsent
  rw [hlength] at hcount
  subst hcount
  exact ⟨after, perform_of_send hsent, Delivery.carries_of_send hsent, hsteady⟩

/-- The stream still has its delivery, and this still has a steady link. -/
def StaysSteady (d : Delivery) (limit : Nat) (state : Sender × Link) : Prop :=
  state.1.delivery = d ∧ d.Steady limit state.2

/-- Sends over a steady link succeed and leave it steady. -/
theorem sendEach_of_steady (h : s.delivery.Steady limit link) {sendings : List Sending}
    (hx : ∀ x ∈ sendings, x.size ≤ limit) :
    ∃ n after, sendEach perform sendings (s, link) = (.ok n, s.advance sendings.length, after) ∧
      s.delivery.Steady limit after := by
  have hsend : ∀ x ∈ sendings, ∀ state, StaysSteady s.delivery limit state →
      ∃ n next, perform x state = (.ok n, next) ∧ StaysSteady s.delivery limit next := by
    rintro x hmem ⟨t, link⟩ ⟨hd, hsteady⟩
    rw [← hd] at hsteady ⊢
    obtain ⟨after, hp, -, hafter⟩ := perform_of_steady hsteady (hx x hmem)
    exact ⟨_, _, hp, rfl, hafter⟩
  have hstart : StaysSteady s.delivery limit (s, link) := ⟨rfl, h⟩
  obtain ⟨n, ⟨t, after⟩, hsent, -, hafter⟩ := sendEach_of_invariant _ hsend hstart
  obtain ⟨rfl, -⟩ := carriesAll_of_sendEach hsent
  exact ⟨n, after, hsent, hafter⟩

end Sender

end Rtp

end RealTimeStreaming
