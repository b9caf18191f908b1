import RealTimeStreaming.Proofs.H264.PictureClock

/-! Sending a unit again after its send has failed. The numbering is as it was, but a delimiter
has moved the clock: sent again it moves the clock once more, and goes out one frame later than
it was to. Any other unit goes out in the packet that it was to go out in. -/

namespace RealTimeStreaming.H264

open Rtp (Packet Call history leaves)

namespace VideoStream

variable {s t : VideoStream} {link after : Link} {unit : NalUnit}

/-- The packet that the unit is to go out in, if it fits into one. -/
def nextPacket (s : VideoStream) (unit : NalUnit) : Bytes :=
  s.nal.rtp.packet (.raw (s.stampFor unit)) unit.header.isCodedSlice [] unit.bytes

/-- The send succeeds and puts just this packet on the wire. -/
def Puts (s : VideoStream) (link : Link) (unit : NalUnit) (packet : Bytes) : Prop :=
  ∃ n t after, sendUnit unit (s, link) = (.ok n, t, after) ∧
    s.nal.rtp.delivery.Carries packet link after

theorem sendUnit_of_fits (hfits : unit.bytes.length ≤ s.nal.maxUnitSize)
    {result : Except RtspError Nat}
    (h : s.nal.rtp.delivery.send link (s.nextPacket unit) = (result, after)) :
    sendUnit unit (s, link) =
      (result,
        { s with
          nal := { s.nal with rtp := if result.isOk then s.nal.rtp.advance 1 else s.nal.rtp }
          timestamp := s.stampFor unit },
        after) := by
  have hperform := Rtp.Sender.perform_of_send
    (x := ⟨.raw (s.stampFor unit), unit.header.isCodedSlice, [], unit.bytes⟩) h
  rw [sendUnit_eq, NalSender.send_eq, sendings, packetize, if_pos hfits, List.map_singleton]
  cases result with
  | error e => rw [Rtp.sendEach_cons_of_error hperform]
  | ok n =>
    rw [Rtp.sendEach_cons_of_ok hperform]
    rfl

/-- A unit that fits and could not be sent leaves the numbering as it was, and the clock where
the unit's own packet would have had it. -/
theorem eq_of_sendUnit_error (hfits : unit.bytes.length ≤ s.nal.maxUnitSize) {e : RtspError}
    (h : sendUnit unit (s, link) = (.error e, t, after)) :
    t = { s with timestamp := s.stampFor unit } := by
  rcases hsent : s.nal.rtp.delivery.send link (s.nextPacket unit) with ⟨result, next⟩
  rw [sendUnit_of_fits hfits hsent] at h
  cases h
  rfl

theorem length_nextPacket (s : VideoStream) (unit : NalUnit) :
    (s.nextPacket unit).length = Rtp.Header.length + unit.bytes.length := by
  rw [nextPacket, Rtp.Sender.length_packet, List.nil_append]

theorem puts_nextPacket (hfits : unit.bytes.length ≤ s.nal.maxUnitSize)
    (hworks : s.nal.rtp.delivery.Works link (Rtp.Header.length + unit.bytes.length)) :
    s.Puts link unit (s.nextPacket unit) := by
  rw [← length_nextPacket s] at hworks
  obtain ⟨n, next, hsent⟩ := Delivery.send_of_works hworks
  exact ⟨n, _, next, sendUnit_of_fits hfits hsent, Delivery.carries_of_send hsent⟩

theorem stampFor_eq_iff (s : VideoStream) (unit : NalUnit) :
    s.stampFor unit = s.timestamp ↔ unit.header.isDelimiter = false ∨ s.frameStep = 0 := by
  rw [stampFor]
  by_cases hd : unit.header.isDelimiter <;> simp [hd]

/-- The timestamp of the stream tells the packets of a unit apart. -/
theorem nextPacket_eq_iff {stamp : UInt32} :
    { s with timestamp := stamp }.nextPacket unit = s.nextPacket unit ↔ stamp = s.timestamp := by
  constructor
  · intro h
    -- A receiver reads the stamp back out of a packet.
    have hread (x : VideoStream) := x.nal.rtp.ofBytes?_packet
      ⟨.raw (x.stampFor unit), unit.header.isCodedSlice, [], unit.bytes⟩
    have hpackets := (hread { s with timestamp := stamp }).symm.trans
      ((congrArg Packet.ofBytes? h).trans (hread s))
    have hstamps := congrArg (·.map (·.header.timestamp)) hpackets
    by_cases hd : unit.header.isDelimiter
    · simpa [Rtp.Sender.header, Rtp.Timestamp.toClock, stampFor, hd] using hstamps
    · simpa [Rtp.Sender.header, Rtp.Timestamp.toClock, stampFor, hd] using hstamps
  · rintro rfl
    rfl

/-! ### Runs -/

/-- The delimiters of a run are those that were sent and those that failed. -/
theorem delimiters_history {link : Link} (s : VideoStream) (units : List NalUnit) :
    let calls := history sendUnit units (s, link)
    delimiters units = delimiters ((calls.filter (·.result.isOk)).map (·.item)) +
      delimiters ((calls.filter (!·.result.isOk)).map (·.item)) := by
  intro calls
  have hitems : calls.map (·.item) = units := Rtp.map_item_history
  rw [← hitems]
  simp only [delimiters, List.countP_map]
  exact List.countP_eq_countP_filter_add ..

/-- In any reachable state a unit that fits and could not be sent leaves the stream as it was but
for the clock, which a delimiter has moved. So over a link that works the unit goes out in the
packet that it was to go out in, unless it is a delimiter; and the clock of a run counts the
delimiters that failed along with those that were sent. -/
theorem retried_iff_not_delimiter (nal : NalSender) (frameRate : UInt32) (link : Link)
    (feeds : List Feed) :
    let start := (create nal frameRate, link)
    let reached := (leaves feed feeds start).1
    let calls := history sendUnit (attempts feeds start) start
    let sent := (calls.filter (·.result.isOk)).map (·.item)
    let failed := (calls.filter (!·.result.isOk)).map (·.item)
    let step := nal.rtp.clockRate.toNat / frameRate.toNat
    reached.timestamp.toNat = step * (delimiters sent + delimiters failed) % 2 ^ 32 ∧
    (reached.timestamp.toNat = step * delimiters sent % 2 ^ 32 ↔
      step * delimiters failed % 2 ^ 32 = 0) ∧
    ∀ (unit : NalUnit) (failing after : Link) (e : RtspError) (t : VideoStream),
      unit.bytes.length ≤ reached.nal.maxUnitSize →
      sendUnit unit (reached, failing) = (.error e, t, after) →
      t = { reached with timestamp := reached.stampFor unit } ∧
      (t = reached ↔ unit.header.isDelimiter = false ∨ step = 0) ∧
      ∀ working : Link,
        reached.nal.rtp.delivery.Works working (Rtp.Header.length + unit.bytes.length) →
        reached.Puts working unit (reached.nextPacket unit) ∧
        t.Puts working unit (t.nextPacket unit) ∧
        (t.nextPacket unit = reached.nextPacket unit ↔
          unit.header.isDelimiter = false ∨ step = 0) := by
  intro start reached calls sent failed step
  have hreached : reached = (leaves sendUnit (attempts feeds start) start).1 := by
    simp only [reached, leaves_feed]
  have hclock : reached.timestamp.toNat =
      step * (delimiters sent + delimiters failed) % 2 ^ 32 := by
    rw [hreached, leaves_clock, toNat_clockAfter_create]
    exact congrArg (step * · % 2 ^ 32) (delimiters_history _ _)
  have hstep : reached.frameStep = 0 ↔ step = 0 := by
    rw [hreached, leaves_frameStep, ← UInt32.toNat_inj, create, UInt32.toNat_div]
    rfl
  refine ⟨hclock, ?_, ?_⟩
  · rw [hclock, Nat.mul_add]
    generalize step * delimiters sent = a
    generalize step * delimiters failed = b
    omega
  · intro unit failing after e t hfits hsend
    obtain rfl := eq_of_sendUnit_error hfits hsend
    have hsame := reached.stampFor_eq_iff unit
    rw [hstep] at hsame
    refine ⟨rfl, ?_, fun working hworks => ⟨puts_nextPacket hfits hworks, ?_, ?_⟩⟩
    · rw [← hsame]
      exact ⟨fun h => congrArg timestamp h, fun h => by rw [h]⟩
    · apply puts_nextPacket
      · exact hfits
      · exact hworks
    · rw [nextPacket_eq_iff, hsame]

/-- A parameter set that a connection with no room refused, after a delimiter was sent. -/
theorem retried_iff_not_delimiter_parameter_set :
    let nal : NalSender := .ofRtp
      { delivery := .interleaved 0, payloadType := 96, clockRate := 90000, ssrc := 7,
        sequence := 65535, payloadType_lt := by decide }
    let feeds : List Feed := [.single ⟨9, [0xF0]⟩]
    let full : Link := { connection := ({ budget := some 0 } : SinkScript).toSink }
    let unit : NalUnit := ⟨0x67, [1, 2]⟩
    let reached := (leaves feed feeds (create nal 25, {})).1
    reached.timestamp.toNat = 3600 ∧
      ∃ e t after, sendUnit unit (reached, full) = (.error e, t, after) ∧ t = reached ∧
        t.Puts {} unit (reached.nextPacket unit) := by
  intro nal feeds full unit reached
  have hkind : unit.header.isDelimiter = false := by decide
  have hd : reached.nal.rtp.delivery = .interleaved 0 := by decide +kernel
  obtain ⟨hclock, -, hretry⟩ := retried_iff_not_delimiter nal 25 {} feeds
  refine ⟨hclock.trans (by decide +kernel), ?_⟩
  rcases hsend : sendUnit unit (reached, full) with ⟨⟨e⟩ | ⟨n⟩, t, after⟩
  · obtain ⟨-, hsame, hputs⟩ := hretry unit full after e t (by decide +kernel) hsend
    have hworks : reached.nal.rtp.delivery.Works {} (Rtp.Header.length + unit.bytes.length) := by
      rw [hd]
      exact ⟨Behaviour.reliable_accepting, by decide⟩
    obtain ⟨-, hagain, hpacket⟩ := hputs {} hworks
    refine ⟨e, t, after, rfl, hsame.2 (.inl hkind), ?_⟩
    rwa [hpacket.2 (.inl hkind)] at hagain
  · have hfails : (sendUnit unit (reached, full)).1.isOk = false := by decide +kernel
    rw [hsend] at hfails
    cases hfails

/-- A delimiter on a connection with no room. No byte is on the wire, but the clock has moved;
sent again over a connection that works, the delimiter is one frame late. So the clock of a
stream that had room for one delimiter of two stands at two frames. -/
theorem retried_delimiter_is_late :
    let s : VideoStream := create
      (.ofRtp
        { delivery := .interleaved 0, payloadType := 96, clockRate := 90000, ssrc := 7,
          sequence := 0, payloadType_lt := by decide }) 25
    let aud : NalUnit := ⟨9, [0xF0]⟩
    let room := fun budget : Nat =>
      ({ connection := ({ budget := some budget } : SinkScript).toSink } : Link)
    let failed := sendUnit aud (s, room 0)
    let calls := history sendUnit [aud, aud] (s, room 18)
    (failed.1.isOk = false ∧ failed.2.2.connection.taken = [] ∧
      s.timestamp = 0 ∧ failed.2.1.timestamp = 3600 ∧
      (sendUnit aud (failed.2.1, {})).1.isOk = true ∧
      (sendUnit aud (failed.2.1, {})).2.2.connection.taken ≠
        (sendUnit aud (s, {})).2.2.connection.taken) ∧
    calls.map (·.result.isOk) = [true, false] ∧
      (leaves sendUnit [aud, aud] (s, room 18)).1.timestamp = 7200 := by
  decide +kernel

end VideoStream

end RealTimeStreaming.H264
