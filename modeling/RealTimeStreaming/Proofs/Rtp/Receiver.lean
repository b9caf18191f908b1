import RealTimeStreaming.Proofs.Rtp.Runs

/-! The other end of an interleaved stream. A receiver cuts the wire into frames and reads a
packet from each; over a link that never fails it finds just the packets that were sent, with
consecutive numbers. -/

namespace RealTimeStreaming.Rtp

/-- A packet as a receiver finds it. -/
structure Packet where
  header : Header
  payload : Bytes
deriving DecidableEq, Repr

def Packet.ofBytes? (bytes : Bytes) : Option Packet :=
  (Header.decode? bytes).map fun header => { header, payload := bytes.drop Header.length }

/-- The packets of a wire that holds nothing but whole frames on one channel. -/
def packetsOn? (channel : UInt8) (wire : Bytes) : Option (List Packet) :=
  if (Frame.readAll wire).2 = [] then
    (Frame.readAll wire).1.mapM fun (on, bytes) =>
      if on = channel then Packet.ofBytes? bytes else none
  else none

@[simp] theorem packetsOn?_nil (channel : UInt8) : packetsOn? channel [] = some [] := by
  simp [packetsOn?]

theorem packetsOn?_encode {channel : UInt8} {bytes frame : Bytes} {packet : Packet}
    (h : Frame.encode channel bytes = .ok frame) (hp : Packet.ofBytes? bytes = some packet) :
    packetsOn? channel frame = some [packet] := by
  simp [packetsOn?, Frame.readAll_encode h, hp]

theorem packetsOn?_append {channel : UInt8} {wire more : Bytes} {packets others : List Packet}
    (h : packetsOn? channel wire = some packets) (hm : packetsOn? channel more = some others) :
    packetsOn? channel (wire ++ more) = some (packets ++ others) := by
  unfold packetsOn? at h hm ⊢
  split at h
  · rename_i hleft
    split at hm
    · rename_i hleft'
      rw [Frame.readAll_append (Prod.ext rfl hleft), if_pos hleft']
      simp only
      rw [List.mapM_append, h, hm]
      rfl
    · cases hm
  · cases h

/-! ### Sends over a link that never fails -/

namespace Sender

/-- The stream after some more packets. -/
def advance (s : Sender) (count : Nat) : Sender :=
  { s with sequence := s.sequence + .ofNat count }

/-- What a receiver finds of sends that all succeed. -/
def packets (s : Sender) : List Sending → List Packet
  | [] => []
  | x :: sendings =>
    { header := s.header x.timestamp x.marker, payload := x.head ++ x.payload } ::
      (s.advance 1).packets sendings

@[simp] theorem advance_zero (s : Sender) : s.advance 0 = s := by
  have hzero : s.sequence + UInt16.ofNat 0 = s.sequence := UInt16.add_zero _
  rw [advance, hzero]

theorem advance_advance (s : Sender) (m n : Nat) :
    (s.advance m).advance n = s.advance (m + n) := by
  simp only [advance, UInt16.ofNat_add, UInt16.add_assoc]

theorem length_packets (s : Sender) (sendings : List Sending) :
    (s.packets sendings).length = sendings.length := by
  induction sendings generalizing s with
  | nil => rfl
  | cons x sendings ih => simp [packets, ih]

theorem getElem?_packets (s : Sender) (sendings : List Sending) (i : Nat) :
    (s.packets sendings)[i]? = sendings[i]?.map fun x =>
      { header := (s.advance i).header x.timestamp x.marker, payload := x.head ++ x.payload } := by
  induction sendings generalizing s i with
  | nil => rfl
  | cons x sendings ih =>
    cases i with
    | zero => simp [packets]
    | succ i => simp [packets, ih, advance_advance, Nat.add_comm]

theorem ofBytes?_packet (s : Sender) (x : Sending) :
    Packet.ofBytes? (s.packet x.timestamp x.marker x.head x.payload) =
      some { header := s.header x.timestamp x.marker, payload := x.head ++ x.payload } := by
  rw [Packet.ofBytes?, packet_eq, decode?_header, Option.map_some,
    ← Header.length_encode (s.header x.timestamp x.marker), List.drop_left]

theorem perform_of_send {s : Sender} {link after : Link} {x : Sending}
    {result : Except RtspError Nat}
    (h : s.delivery.send link (s.packet x.timestamp x.marker x.head x.payload) = (result, after)) :
    perform x (s, link) = (result, if result.isOk then s.advance 1 else s, after) := by
  simp only [perform, send, h]
  cases result <;> rfl

/-- The packets of sends that all succeed, as bytes. -/
def rawPackets (s : Sender) : List Sending → List Bytes
  | [] => []
  | x :: sendings =>
    s.packet x.timestamp x.marker x.head x.payload :: (s.advance 1).rawPackets sendings

theorem rawPackets_append (s : Sender) (sendings more : List Sending) :
    s.rawPackets (sendings ++ more) =
      s.rawPackets sendings ++ (s.advance sendings.length).rawPackets more := by
  induction sendings generalizing s with
  | nil =>
    rw [List.length_nil, advance_zero]
    rfl
  | cons x sendings ih =>
    rw [List.cons_append, rawPackets, ih, advance_advance, Nat.add_comm 1]
    rfl

theorem mapM_rawPackets (s : Sender) (sendings : List Sending) :
    (s.rawPackets sendings).mapM Packet.ofBytes? = some (s.packets sendings) := by
  induction sendings generalizing s with
  | nil => rfl
  | cons x sendings ih =>
    rw [rawPackets, List.mapM_cons, ofBytes?_packet, ih]
    rfl

/-- Sends that all succeed put just their packets on the wire, over any link. -/
theorem carriesAll_of_sendEach {s t : Sender} {link after : Link} {sendings : List Sending}
    {n : Nat} (h : sendEach perform sendings (s, link) = (.ok n, t, after)) :
    t = s.advance sendings.length ∧
      s.delivery.CarriesAll (s.rawPackets sendings) link after := by
  induction sendings generalizing s link n with
  | nil =>
    cases h
    exact ⟨(advance_zero _).symm, Delivery.carriesAll_nil _ _⟩
  | cons x sendings ih =>
    obtain ⟨first, others, ⟨mid, next⟩, hp, hrest, rfl⟩ := of_sendEach_cons h
    obtain ⟨hcarries, rfl⟩ := carries_of_send hp
    obtain ⟨rfl, hall⟩ := ih hrest
    refine ⟨?_, Delivery.carriesAll_cons hcarries hall⟩
    rw [List.length_cons, Nat.add_comm, ← advance_advance]
    rfl

section

variable {s : Sender} {link : Link} {channel : UInt8}

theorem perform_of_reliable (hd : s.delivery = .interleaved channel)
    (hr : link.connection.behaviour.Reliable) {x : Sending}
    (hx : Header.length + (x.head.length + x.payload.length) < 65536) :
    ∃ wire after, perform x (s, link) = (.ok wire.length, s.advance 1, after) ∧
      after.connection.taken = link.connection.taken ++ wire ∧
      after.connection.behaviour = link.connection.behaviour ∧
      packetsOn? channel wire =
        some [{ header := s.header x.timestamp x.marker, payload := x.head ++ x.payload }] := by
  have hlength : (s.packet x.timestamp x.marker x.head x.payload).length < 65536 := by
    rw [length_packet, List.length_append]
    exact hx
  obtain ⟨n, sink, hsent⟩ := Sink.sendFrame_of_reliable hr channel hlength
  obtain ⟨frame, hframe, rfl, htaken⟩ := Sink.taken_sendFrame hsent
  have hkeeps := link.connection.behaviour_sendFrame channel
    (s.packet x.timestamp x.marker x.head x.payload)
  rw [hsent] at hkeeps
  have hdelivered : s.delivery.send link (s.packet x.timestamp x.marker x.head x.payload) =
      (.ok frame.length, { link with connection := sink }) := by
    rw [hd]
    simp only [Delivery.send, hsent]
  refine ⟨frame, { link with connection := sink }, ?_, htaken, hkeeps,
    packetsOn?_encode hframe (s.ofBytes?_packet x)⟩
  simp only [perform, send, hdelivered]
  rfl

/-- Sends that the link cannot fail put their packets on the wire, and the count is the number
of bytes they take there. -/
theorem sendEach_of_reliable (hd : s.delivery = .interleaved channel)
    (hr : link.connection.behaviour.Reliable) {sendings : List Sending}
    (hx : ∀ x ∈ sendings, Header.length + (x.head.length + x.payload.length) < 65536) :
    ∃ wire after, sendEach perform sendings (s, link) =
        (.ok wire.length, s.advance sendings.length, after) ∧
      after.connection.taken = link.connection.taken ++ wire ∧
      after.connection.behaviour = link.connection.behaviour ∧
      packetsOn? channel wire = some (s.packets sendings) := by
  induction sendings generalizing s link with
  | nil => exact ⟨[], link, by simp, (List.append_nil _).symm, rfl, packetsOn?_nil channel⟩
  | cons x sendings ih =>
    obtain ⟨wire, next, hp, htaken, hkeeps, hread⟩ :=
      perform_of_reliable hd hr (hx x List.mem_cons_self)
    obtain ⟨more, after, hsends, htaken', hkeeps', hread'⟩ :=
      ih (s := s.advance 1) hd (hkeeps ▸ hr) fun y hy => hx y (List.mem_cons_of_mem x hy)
    refine ⟨wire ++ more, after, ?_, ?_, hkeeps'.trans hkeeps, packetsOn?_append hread hread'⟩
    · rw [sendEach_cons_of_ok hp, hsends, advance_advance, Nat.add_comm 1]
      simp [Except.map]
    · rw [htaken', htaken, List.append_assoc]

end

end Sender

end RealTimeStreaming.Rtp
