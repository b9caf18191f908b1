import RealTimeStreaming.Proofs.Rtp.Receiver
import RealTimeStreaming.Proofs.Wire.Torn

/-! The packet numbers on a wire that can fail anywhere. A number is used up by a call that
succeeds, but it is on the wire as soon as the frame is whole; in between stands the flush. So a
receiver finds consecutive numbers if flushes work, and one number over and over if they fail. -/

namespace RealTimeStreaming.Rtp

/-- The complete packets on a channel, whatever stands behind the last of them. -/
def completePackets? (channel : UInt8) (wire : Bytes) : Option (List Packet) :=
  (Frame.readAll wire).1.mapM fun (on, bytes) =>
    if on = channel then Packet.ofBytes? bytes else none

/-- Packets that carry the numbers from `first` on, none left out and none twice. -/
structure Consecutive (first : UInt16) (packets : List Packet) : Prop where
  numbers : packets.map (·.header.sequence) =
    (List.range packets.length).map fun k => first + .ofNat k
  distinct : (packets.map (·.header.sequence)).Nodup

/-! ### Wires with a torn end -/

section

variable {channel : UInt8} {packets : List Packet} {s t : Sink}

/-- A wire on which these packets are complete. Behind them there is nothing, or the sink is
shut. -/
structure Shows (channel : UInt8) (packets : List Packet) (s : Sink) : Prop where
  complete : completePackets? channel s.taken = some packets
  ends : (Frame.readAll s.taken).2 = [] ∨ s.behaviour.Shut s.wire.size

theorem completePackets?_append {wire : Bytes} (h : completePackets? channel wire = some packets)
    (hrest : (Frame.readAll wire).2 = []) (more : Bytes) :
    completePackets? channel (wire ++ more) =
      (completePackets? channel more).map (packets ++ ·) := by
  unfold completePackets? at h ⊢
  rw [Frame.readAll_append (Prod.ext rfl hrest), List.mapM_append, h]
  cases (Frame.readAll more).1.mapM fun (on, bytes) =>
    if on = channel then Packet.ofBytes? bytes else none <;> rfl

namespace Shows

theorem fresh (behaviour : Behaviour) : Shows channel [] { behaviour } where
  complete := by simp [completePackets?, Sink.taken]
  ends := .inl (by simp [Sink.taken])

theorem of_wire_eq (h : Shows channel packets s) (hw : t.wire = s.wire)
    (hb : t.behaviour = s.behaviour) : Shows channel packets t := by
  have htaken : t.taken = s.taken := congrArg Array.toList hw
  refine ⟨htaken ▸ h.complete, ?_⟩
  rw [htaken, hw, hb]
  exact h.ends

theorem whole (h : Shows channel packets s) (hrest : (Frame.readAll s.taken).2 = [])
    {bytes frame : Bytes} {packet : Packet} (hframe : Frame.encode channel bytes = .ok frame)
    (hp : Packet.ofBytes? bytes = some packet) (ht : t.taken = s.taken ++ frame) :
    Shows channel (packets ++ [packet]) t := by
  have hread := Frame.readAll_encode hframe
  constructor
  · rw [ht, completePackets?_append h.complete hrest, completePackets?, hread]
    simp [hp]
  · left
    rw [ht, Frame.readAll_append (Prod.ext rfl hrest), hread]

theorem torn (h : Shows channel packets s) (hrest : (Frame.readAll s.taken).2 = [])
    {bytes frame : Bytes} (hframe : Frame.encode channel bytes = .ok frame) {n : Nat}
    (hn : n < frame.length) (ht : t.taken = s.taken ++ frame.take n)
    (hshut : t.behaviour.Shut t.wire.size) : Shows channel packets t := by
  have hread := Frame.readAll_of_cut?_eq_none (Frame.cut?_take hframe hn)
  refine ⟨?_, .inr hshut⟩
  rw [ht, completePackets?_append h.complete hrest, completePackets?, hread]
  simp

end Shows

end

/-! ### Runs -/

namespace Sender

variable {s : Sender} {link : Link} {channel : UInt8} {packets : List Packet}

/-- How a receiver reads the next packet. -/
def reading (s : Sender) (x : Sending) : Packet where
  header := s.header x.timestamp x.marker
  payload := x.head ++ x.payload

/-- A call puts its packet on the wire or does not; and if it does, then it is the flush that
decides whether the call succeeds. -/
theorem perform_shows {outcome : Option IoError} (hd : s.delivery = .interleaved channel)
    (hf : link.connection.behaviour.Final) (ho : link.connection.behaviour.FlushesAs outcome)
    (h : Shows channel packets link.connection) (x : Sending) :
    ∃ result after, perform x (s, link) = (result, if result.isOk then s.advance 1 else s, after) ∧
      after.connection.behaviour = link.connection.behaviour ∧
      (result.isOk = false ∧ Shows channel packets after.connection ∨
        result.isOk = outcome.isNone ∧
          Shows channel (packets ++ [s.reading x]) after.connection) := by
  rcases hs : link.connection.sendFrame channel (s.packet x.timestamp x.marker x.head x.payload)
    with ⟨result, sink⟩
  have hkeeps := link.connection.behaviour_sendFrame channel
    (s.packet x.timestamp x.marker x.head x.payload)
  rw [hs] at hkeeps
  refine ⟨result, { link with connection := sink }, perform_of_send ?_, hkeeps, ?_⟩
  · simp only [hd, Delivery.send, hs]
  · by_cases hrest : (Frame.readAll link.connection.taken).2 = []
    · obtain ⟨e, hc⟩ | ⟨frame, result', sink', hframe, hc, htaken, hok⟩ |
          ⟨frame, e, sink', n, hframe, hc, hn, htaken, hshut⟩ :=
        Sink.sendFrame_cases hf ho channel (s.packet x.timestamp x.marker x.head x.payload) <;>
        cases hs.symm.trans hc
      · exact .inl ⟨rfl, h⟩
      · exact .inr ⟨hok, h.whole hrest hframe (s.ofBytes?_packet x) htaken⟩
      · exact .inl ⟨rfl, h.torn hrest hframe hn htaken hshut⟩
    · obtain ⟨e, sink', hc, hwire⟩ := Sink.sendFrame_of_shut (h.ends.resolve_left hrest) channel
        (s.packet x.timestamp x.marker x.head x.payload)
      cases hs.symm.trans hc
      exact .inl ⟨rfl, h.of_wire_eq hwire hkeeps⟩

/-- If flushes work, the packets of the calls that succeeded are complete on the wire. -/
theorem leaves_shows_delivered (hd : s.delivery = .interleaved channel)
    (hf : link.connection.behaviour.Final) (ho : link.connection.behaviour.FlushesAs none)
    (h : Shows channel packets link.connection) (sendings : List Sending) :
    Shows channel
      (packets ++ s.packets
        (((history perform sendings (s, link)).filter (·.result.isOk)).map (·.item)))
      (leaves perform sendings (s, link)).2.connection := by
  induction sendings generalizing s link packets with
  | nil => simpa [history, Sender.packets] using h
  | cons x sendings ih =>
    obtain ⟨result, after, hp, hkeeps, ⟨hok, hshows⟩ | ⟨hok, hshows⟩⟩ := perform_shows hd hf ho h x
    · simp only [history, leaves_cons, hp, List.filter_cons, hok, Bool.false_eq_true, if_false]
      exact ih hd (hkeeps ▸ hf) (hkeeps ▸ ho) hshows
    · rw [Option.isNone_none] at hok
      have hrest := ih (s := s.advance 1) hd (hkeeps ▸ hf) (hkeeps ▸ ho) hshows
      rw [List.append_assoc] at hrest
      simp only [history, leaves_cons, hp, List.filter_cons, hok, if_true]
      exact hrest

/-- If flushes fail, no call succeeds, and all packets on the wire carry one number. -/
theorem leaves_shows_repeated {error : IoError} (hd : s.delivery = .interleaved channel)
    (hf : link.connection.behaviour.Final)
    (ho : link.connection.behaviour.FlushesAs (some error))
    (h : Shows channel packets link.connection) (sendings : List Sending) :
    ∃ carried : List Sending, carried.Sublist sendings ∧
      Shows channel (packets ++ carried.map s.reading)
        (leaves perform sendings (s, link)).2.connection := by
  induction sendings generalizing link packets with
  | nil => exact ⟨[], .slnil, by simpa using h⟩
  | cons x sendings ih =>
    obtain ⟨result, after, hp, hkeeps, ⟨hok, hshows⟩ | ⟨hok, hshows⟩⟩ := perform_shows hd hf ho h x
    all_goals
      obtain ⟨carried, hsub, hrest⟩ := ih (hkeeps ▸ hf) (hkeeps ▸ ho) hshows
      simp only [leaves_cons, hp]
    · rw [if_neg (by simp [hok])]
      exact ⟨carried, hsub.cons x, hrest⟩
    · rw [if_neg (by simp [hok])]
      refine ⟨x :: carried, hsub.cons_cons x, ?_⟩
      rw [List.append_assoc] at hrest
      exact hrest

/-! ### Numbers -/

theorem map_sequence_packets (s : Sender) (sendings : List Sending) :
    (s.packets sendings).map (·.header.sequence) =
      (List.range sendings.length).map fun k => s.sequence + .ofNat k := by
  apply List.ext_getElem?
  intro i
  rw [List.getElem?_map, getElem?_packets, Option.map_map, List.getElem?_map]
  by_cases hi : i < sendings.length
  · rw [List.getElem?_eq_getElem hi, List.getElem?_range hi]
    rfl
  · rw [List.getElem?_eq_none (by omega), List.getElem?_eq_none (by rw [List.length_range]; omega)]
    rfl

theorem consecutive_packets {sendings : List Sending} (h : sendings.length ≤ 2 ^ 16) :
    Consecutive s.sequence (s.packets sendings) := by
  refine ⟨by rw [map_sequence_packets, length_packets], ?_⟩
  rw [map_sequence_packets]
  apply List.Nodup.map_on _ List.nodup_range
  intro i hi j hj heq
  rw [List.mem_range] at hi hj
  -- Below 2 ^ 16 the wrap does not bring two numbers together.
  have hij := congrArg UInt16.toNat (UInt16.add_right_inj s.sequence |>.1 heq)
  rwa [UInt16.toNat_ofNat_of_lt' (by rw [UInt16.size]; omega),
    UInt16.toNat_ofNat_of_lt' (by rw [UInt16.size]; omega)] at hij

theorem consecutive_reading_iff {carried : List Sending} :
    Consecutive s.sequence (carried.map s.reading) ↔ carried.length ≤ 1 := by
  have hall : (carried.map s.reading).map (·.header.sequence) =
      List.replicate carried.length s.sequence := by
    rw [List.map_map]
    exact List.map_const' ..
  constructor
  · intro h
    have hnodup := h.distinct
    rwa [hall, List.nodup_replicate] at hnodup
  · intro h
    refine ⟨?_, by rwa [hall, List.nodup_replicate]⟩
    rw [hall, List.length_map]
    obtain h | h : carried.length = 0 ∨ carried.length = 1 := by omega
    all_goals
      rw [h]
      simp

/-- Over a sink that a few numbers describe, whatever the calls returned, the complete packets on
the wire carry consecutive numbers, unless flushes fail: the packets of calls that failed at the
flush are on the wire, all of them with the first number. -/
theorem consecutive_iff_flushes (s : Sender) (channel : UInt8)
    (hd : s.delivery = .interleaved channel) (script : SinkScript) (sendings : List Sending)
    (hcount : sendings.length ≤ 2 ^ 16) :
    let start : Sender × Link := (s, { connection := script.toSink })
    let delivered := (history perform sendings start).filter (·.result.isOk)
    ∃ packets,
      completePackets? channel (leaves perform sendings start).2.connection.taken = some packets ∧
      (Consecutive s.sequence packets ↔ script.flushFails = false ∨ packets.length ≤ 1) ∧
      (script.flushFails = false → packets = s.packets (delivered.map (·.item))) ∧
      (script.flushFails = true →
        ∃ carried : List Sending, carried.Sublist sendings ∧ packets = carried.map s.reading) := by
  intro start delivered
  have hf : start.2.connection.behaviour.Final := script.final_toBehaviour
  have hfresh : Shows channel [] start.2.connection := .fresh _
  cases hflush : script.flushFails with
  | false =>
    have ho : start.2.connection.behaviour.FlushesAs none := by
      intro call taken
      simp [start, SinkScript.toSink, SinkScript.toBehaviour, SinkScript.flush, hflush]
    have hshows := leaves_shows_delivered hd hf ho hfresh sendings
    rw [List.nil_append] at hshows
    refine ⟨_, hshows.complete, ?_, fun _ => rfl, by simp⟩
    have hle : (delivered.map (·.item)).length ≤ 2 ^ 16 := by
      have hcalls : delivered.length ≤ (history perform sendings start).length :=
        List.length_filter_le ..
      rw [length_history] at hcalls
      rw [List.length_map]
      exact hcalls.trans hcount
    simp only [true_or, iff_true]
    exact consecutive_packets hle
  | true =>
    have ho : start.2.connection.behaviour.FlushesAs
        (some (.plain (script.failure.getD .writeZero))) := by
      intro call taken
      simp [start, SinkScript.toSink, SinkScript.toBehaviour, SinkScript.flush, hflush]
    obtain ⟨carried, hsub, hshows⟩ := leaves_shows_repeated hd hf ho hfresh sendings
    rw [List.nil_append] at hshows
    refine ⟨_, hshows.complete, ?_, by simp, fun _ => ⟨carried, hsub, rfl⟩⟩
    rw [consecutive_reading_iff, List.length_map]
    simp

/-- Three packets across the wrap of the number, on a sink that takes five bytes at a time, is
interrupted every other call and has room for two packets and a part of the third. -/
theorem consecutive_iff_flushes_torn :
    let s : Sender :=
      { delivery := .interleaved 0, payloadType := 96, clockRate := 90000, ssrc := 7,
        sequence := 65535, payloadType_lt := by decide }
    let script : SinkScript := { interruptEvery := 2, maxWrite := some 5, budget := some 40 }
    let sendings : List Sending :=
      [⟨.raw 900, false, [], [1, 2]⟩, ⟨.raw 900, true, [3], [4]⟩, ⟨.raw 1800, false, [], [5, 6]⟩]
    let start : Sender × Link := (s, { connection := script.toSink })
    sendings.length ≤ 2 ^ 16 ∧
      (leaves perform sendings start).2.connection.taken.length = 40 ∧
      ∃ packets,
        completePackets? 0 (leaves perform sendings start).2.connection.taken = some packets ∧
        Consecutive 65535 packets ∧ packets.length = 2 := by
  intro s script sendings start
  obtain ⟨packets, hcomplete, hiff, hdelivered, -⟩ :=
    consecutive_iff_flushes s 0 rfl script sendings (by decide)
  refine ⟨by decide, by decide +kernel, packets, hcomplete, hiff.2 (.inl rfl), ?_⟩
  rw [hdelivered rfl, length_packets]
  decide +kernel

/-- Two packets on a sink that takes all bytes and fails every flush. Both are complete on the
wire and carry the same number. -/
theorem not_consecutive_of_failing_flushes :
    let s : Sender :=
      { delivery := .interleaved 0, payloadType := 96, clockRate := 90000, ssrc := 7,
        sequence := 0, payloadType_lt := by decide }
    let script : SinkScript := { flushFails := true }
    let sendings : List Sending := [⟨.raw 900, false, [], [1]⟩, ⟨.raw 1800, false, [], [2]⟩]
    let wire := (leaves perform sendings (s, { connection := script.toSink })).2.connection.taken
    ∃ packets, completePackets? 0 wire = some packets ∧
      packets.map (·.header.sequence) = [0, 0] ∧ ¬ Consecutive s.sequence packets := by
  intro s script sendings wire
  have hcomplete : completePackets? 0 wire =
      some (sendings.map fun x => ⟨s.header x.timestamp x.marker, x.payload⟩) := by
    decide +kernel
  refine ⟨_, hcomplete, rfl, ?_⟩
  intro h
  exact absurd h.distinct (by decide)

end Sender

end RealTimeStreaming.Rtp
