import RealTimeStreaming.H264.Video
import RealTimeStreaming.Proofs.H264.Reassembly
import RealTimeStreaming.Wire.SinkScript

/-! The clock of a video stream. It moves on by one frame whenever a delimiter is to be sent, so
the packets of a unit are stamped by the number of delimiters up to it, however the units came
in. -/

namespace RealTimeStreaming.H264

open Rtp (Packet Call sendEach history leaves attempted)

/-- How many of the units start a picture. -/
def delimiters (units : List NalUnit) : Nat :=
  units.countP (·.header.isDelimiter)

theorem delimiters_cons (unit : NalUnit) (units : List NalUnit) :
    delimiters (unit :: units) = delimiters [unit] + delimiters units := by
  rw [← List.singleton_append]
  exact List.countP_append

/-! ### Packets of one unit -/

/-- Packets that carry a unit, all of them under one timestamp. -/
structure Bears (maxUnitSize : Nat) (stamp : UInt32) (unit : NalUnit) (packets : List Packet) :
    Prop where
  payloads : packets.map Packet.payload = (packetize maxUnitSize unit).map Payload.bytes
  stamped : ∀ packet ∈ packets, packet.header.timestamp = stamp

theorem NalSender.bears_of_send {s t : NalSender} {link after : Link} {stamp : UInt32}
    {unit : NalUnit} {n : Nat} (h : send (.raw stamp) unit (s, link) = (.ok n, t, after)) :
    (∃ raw packets, s.rtp.delivery.CarriesAll raw link after ∧
      raw.mapM Packet.ofBytes? = some packets ∧ Bears s.maxUnitSize stamp unit packets) ∧
      t.rtp.delivery = s.rtp.delivery ∧ t.maxUnitSize = s.maxUnitSize := by
  rw [send_eq] at h
  rcases hsent : Rtp.sendEach Rtp.Sender.perform (sendings s.maxUnitSize (.raw stamp) unit)
    (s.rtp, link) with ⟨result, rtp, last⟩
  rw [hsent] at h
  cases h
  obtain ⟨rfl, hcarries⟩ := Rtp.Sender.carriesAll_of_sendEach hsent
  refine ⟨⟨_, _, hcarries, s.rtp.mapM_rawPackets _, s.map_payload_packets _ unit, ?_⟩, rfl, rfl⟩
  intro packet hpacket
  obtain ⟨i, hi⟩ := List.mem_iff_getElem?.1 hpacket
  obtain ⟨p, -, -, -, hstamp⟩ := exists_of_getElem?_packets hi
  exact hstamp

/-! ### Runs of units -/

namespace VideoStream

variable {s t : VideoStream} {link after : Link} {unit : NalUnit} {units : List NalUnit}

/-- What the packets of a unit are stamped with. -/
def stampFor (s : VideoStream) (unit : NalUnit) : UInt32 :=
  if unit.header.isDelimiter then s.timestamp + s.frameStep else s.timestamp

theorem sendUnit_eq (s : VideoStream) (link : Link) (unit : NalUnit) :
    sendUnit unit (s, link) =
      let sent := NalSender.send (.raw (s.stampFor unit)) unit (s.nal, link)
      (sent.1, { s with nal := sent.2.1, timestamp := s.stampFor unit }, sent.2.2) :=
  rfl

/-- The timestamp after some more pictures. -/
def clockAfter (s : VideoStream) (pictures : Nat) : UInt32 :=
  s.timestamp + s.frameStep * .ofNat pictures

@[simp] theorem clockAfter_zero (s : VideoStream) : s.clockAfter 0 = s.timestamp := by
  simp [clockAfter]

theorem clockAfter_succ (s : VideoStream) (pictures : Nat) :
    s.clockAfter (pictures + 1) = s.timestamp + s.frameStep + s.frameStep * .ofNat pictures := by
  rw [clockAfter, UInt32.ofNat_add, UInt32.mul_add, UInt32.add_assoc,
    UInt32.add_comm (s.frameStep * _)]
  simp

/-- The clock goes by the unit that was to be sent, whatever became of it. -/
theorem clockAfter_sendUnit (s : VideoStream) (link : Link) (unit : NalUnit) (pictures : Nat) :
    (sendUnit unit (s, link)).2.1.clockAfter pictures =
      s.clockAfter (delimiters [unit] + pictures) := by
  rw [sendUnit_eq, clockAfter]
  by_cases hd : unit.header.isDelimiter
  · rw [show delimiters [unit] = 1 by simp [delimiters, hd], Nat.add_comm, clockAfter_succ]
    simp only [stampFor, if_pos hd]
  · rw [show delimiters [unit] = 0 by simp [delimiters, hd], Nat.zero_add, clockAfter]
    simp only [stampFor, if_neg hd]

theorem stampFor_eq (s : VideoStream) (unit : NalUnit) :
    s.stampFor unit = s.clockAfter (delimiters [unit]) := by
  have hnext := s.clockAfter_sendUnit {} unit 0
  rwa [clockAfter_zero] at hnext

theorem leaves_frameStep (s : VideoStream) (link : Link) (units : List NalUnit) :
    (leaves sendUnit units (s, link)).1.frameStep = s.frameStep := by
  induction units generalizing s link with
  | nil => rfl
  | cons unit units ih => exact ih _ _

theorem leaves_clock (s : VideoStream) (link : Link) (units : List NalUnit) :
    (leaves sendUnit units (s, link)).1.timestamp = s.clockAfter (delimiters units) := by
  induction units generalizing s link with
  | nil => exact s.clockAfter_zero.symm
  | cons unit units ih =>
    rw [Rtp.leaves_cons, ih, clockAfter_sendUnit, ← delimiters_cons]

/-- A unit that was sent is in packets of its own, stamped as if the unit had moved the clock. -/
theorem bears_of_sendUnit {n : Nat} (h : sendUnit unit (s, link) = (.ok n, t, after)) :
    (∃ raw packets, s.nal.rtp.delivery.CarriesAll raw link after ∧
      raw.mapM Packet.ofBytes? = some packets ∧
      Bears s.nal.maxUnitSize (s.clockAfter (delimiters [unit])) unit packets) ∧
      t.nal.rtp.delivery = s.nal.rtp.delivery ∧ t.nal.maxUnitSize = s.nal.maxUnitSize := by
  rcases hsent : NalSender.send (.raw (s.stampFor unit)) unit (s.nal, link) with
    ⟨result, nal, next⟩
  rw [sendUnit_eq, hsent] at h
  cases h
  rw [← stampFor_eq]
  exact NalSender.bears_of_send hsent

/-- If all units are sent, then each is in packets of its own, stamped by the delimiters up to
it. -/
theorem leaves_bears
    (hok : ∀ call ∈ history sendUnit units (s, link), call.result.isOk = true) :
    ∃ (raw : List Bytes) (groups : List (List Packet)),
      s.nal.rtp.delivery.CarriesAll raw link (leaves sendUnit units (s, link)).2 ∧
      raw.mapM Packet.ofBytes? = some groups.flatten ∧
      groups.length = units.length ∧
      ∀ (j : Nat) (unit : NalUnit) (group : List Packet),
        units[j]? = some unit → groups[j]? = some group →
          Bears s.nal.maxUnitSize (s.clockAfter (delimiters (units.take (j + 1)))) unit group := by
  induction units generalizing s link with
  | nil => exact ⟨[], [], Delivery.carriesAll_nil _ _, rfl, rfl, by simp⟩
  | cons unit units ih =>
    have hclock := s.clockAfter_sendUnit link unit
    rcases hsent : sendUnit unit (s, link) with ⟨⟨e⟩ | ⟨n⟩, t, next⟩
    all_goals
      simp only [history, hsent, List.forall_mem_cons] at hok
      rw [hsent] at hclock
    · cases hok.1
    · obtain ⟨⟨front, packets, hfront, hpackets, hunit⟩, hdelivery, hsize⟩ :=
        bears_of_sendUnit hsent
      obtain ⟨raw, groups, hcarries, hread, hlength, hbears⟩ := ih hok.2
      rw [hdelivery] at hcarries
      refine ⟨front ++ raw, packets :: groups, ?_, ?_, by simp [hlength], ?_⟩
      · rw [Rtp.leaves_cons, hsent]
        exact Delivery.carriesAll_append hfront hcarries
      · rw [List.mapM_append, hpackets, hread]
        rfl
      · intro j other group hother hgroup
        cases j with
        | zero =>
          cases hother
          cases hgroup
          exact hunit
        | succ j =>
          -- The first unit is counted by the clock that it left.
          have hlater := hbears j other group hother hgroup
          rwa [hsize, hclock, ← delimiters_cons] at hlater

/-- Units that all went out stand on the wire one by one, each in its packets, and nothing else. -/
theorem carriesAll_of_sendEach {units : List NalUnit} {n : Nat} {after : VideoStream × Link}
    (h : sendEach sendUnit units (s, link) = (.ok n, after)) :
    ∃ (raw : List Bytes) (groups : List (List Packet)),
      s.nal.rtp.delivery.CarriesAll raw link after.2 ∧
      raw.mapM Packet.ofBytes? = some groups.flatten ∧
      groups.map (·.map Packet.payload) =
        units.map fun unit => (packetize s.nal.maxUnitSize unit).map Payload.bytes := by
  have hok : (sendEach sendUnit units (s, link)).1.isOk = true := by
    rw [h]
    rfl
  obtain ⟨hall, hcalls⟩ := Rtp.attempted_of_isOk hok
  have hleaves : (sendEach sendUnit units (s, link)).2 = Rtp.leaves sendUnit units (s, link) := by
    rw [Rtp.sendEach_eq_leaves, hall]
  rw [h] at hleaves
  obtain ⟨raw, groups, hcarries, hread, hlength, hbears⟩ := leaves_bears hcalls
  rw [← hleaves] at hcarries
  refine ⟨raw, groups, hcarries, hread, List.ext_getElem (by simp [hlength]) fun j hj hj' => ?_⟩
  rw [List.getElem_map, List.getElem_map]
  rw [List.length_map] at hj hj'
  exact (hbears j _ _ (List.getElem?_eq_getElem hj') (List.getElem?_eq_getElem hj)).payloads

end VideoStream

/-! ### Units and stretches of byte stream -/

/-- What a stream is asked to send by one call. -/
inductive Feed where
  | single (unit : NalUnit)
  | stream (data : Bytes)
deriving DecidableEq, Repr

def Feed.units : Feed → List NalUnit
  | .single unit => [unit]
  | .stream data => splitUnits data

namespace VideoStream

def feed : Feed → VideoStream × Link → Except RtspError Nat × VideoStream × Link
  | .single unit => sendUnit unit
  | .stream data => sendStream data

/-- The units that a run comes to: a call ends with the first of its units that fails. -/
def attempts : List Feed → VideoStream × Link → List NalUnit
  | [], _ => []
  | given :: feeds, state =>
    attempted sendUnit given.units state ++ attempts feeds (feed given state).2

section

variable {state : VideoStream × Link}

theorem feed_leaves (given : Feed) (state : VideoStream × Link) :
    (feed given state).2 = leaves sendUnit (attempted sendUnit given.units state) state := by
  cases given with
  | single unit =>
    rcases hsent : sendUnit unit state with ⟨⟨e⟩ | ⟨n⟩, next⟩ <;>
      simp [feed, Feed.units, attempted, hsent]
  | stream data => exact Rtp.sendEach_eq_leaves

theorem attempted_of_isOk_feed {given : Feed} (h : (feed given state).1.isOk = true) :
    attempted sendUnit given.units state = given.units ∧
      ∀ call ∈ history sendUnit given.units state, call.result.isOk = true := by
  cases given with
  | single unit =>
    rcases hsent : sendUnit unit state with ⟨⟨e⟩ | ⟨n⟩, next⟩
    · rw [feed, hsent] at h
      cases h
    · simp [Feed.units, attempted, history, hsent, Except.isOk, Except.toBool]
  | stream data => exact Rtp.attempted_of_isOk h

/-- However the units came in, the run is one over the units. -/
theorem leaves_feed (feeds : List Feed) (state : VideoStream × Link) :
    leaves feed feeds state = leaves sendUnit (attempts feeds state) state := by
  induction feeds generalizing state with
  | nil => rfl
  | cons given feeds ih =>
    rw [Rtp.leaves_cons, ih, attempts, Rtp.leaves_append, ← feed_leaves]

theorem attempts_of_isOk {feeds : List Feed}
    (h : ∀ call ∈ history feed feeds state, call.result.isOk = true) :
    attempts feeds state = feeds.flatMap Feed.units ∧
      ∀ call ∈ history sendUnit (attempts feeds state) state, call.result.isOk = true := by
  induction feeds generalizing state with
  | nil => simp [attempts, history]
  | cons given feeds ih =>
    rw [history, List.forall_mem_cons] at h
    obtain ⟨hall, hcalls⟩ := attempted_of_isOk_feed h.1
    obtain ⟨hrest, hlater⟩ := ih h.2
    refine ⟨by rw [attempts, hall, hrest, List.flatMap_cons], ?_⟩
    rw [attempts, Rtp.history_append, ← feed_leaves, hall]
    intro call hcall
    obtain hcall | hcall := List.mem_append.1 hcall
    · exact hcalls call hcall
    · exact hlater call hcall

end

/-! ### Streams from their start -/

theorem toNat_clockAfter_create (nal : NalSender) (frameRate : UInt32) (pictures : Nat) :
    ((create nal frameRate).clockAfter pictures).toNat =
      nal.rtp.clockRate.toNat / frameRate.toNat * pictures % 2 ^ 32 := by
  simp [clockAfter, create, UInt32.toNat_mul, UInt32.toNat_div]

/-- If all calls succeed, every packet of a unit is stamped by the count of the delimiters up to
the unit, and the timestamp of the stream is that of its last picture. How the units were spread
over the calls does not matter. -/
theorem stamps_count_delimiters (nal : NalSender) (frameRate : UInt32) (link : Link)
    (feeds : List Feed)
    (hok : ∀ call ∈ history feed feeds (create nal frameRate, link), call.result.isOk = true) :
    let units := feeds.flatMap Feed.units
    let after := leaves feed feeds (create nal frameRate, link)
    let stamp := fun pictures =>
      nal.rtp.clockRate.toNat / frameRate.toNat * pictures % 2 ^ 32
    ∃ (raw : List Bytes) (groups : List (List Packet)),
      nal.rtp.delivery.CarriesAll raw link after.2 ∧
      raw.mapM Packet.ofBytes? = some groups.flatten ∧
      groups.length = units.length ∧
      (∀ (j : Nat) (unit : NalUnit) (group : List Packet),
        units[j]? = some unit → groups[j]? = some group →
          group.map Packet.payload = (packetize nal.maxUnitSize unit).map Payload.bytes ∧
          ∀ packet ∈ group,
            packet.header.timestamp.toNat = stamp (delimiters (units.take (j + 1)))) ∧
      after.1.timestamp.toNat = stamp (delimiters units) := by
  intro units after stamp
  obtain ⟨hunits, hcalls⟩ := attempts_of_isOk hok
  rw [hunits] at hcalls
  have hafter : after = leaves sendUnit units (create nal frameRate, link) := by
    simp only [after, units, leaves_feed, hunits]
  obtain ⟨raw, groups, hcarries, hread, hlength, hbears⟩ := leaves_bears hcalls
  refine ⟨raw, groups, hafter ▸ hcarries, hread, hlength, ?_, ?_⟩
  · intro j unit group hunit hgroup
    obtain ⟨hpayloads, hstamped⟩ := hbears j unit group hunit hgroup
    refine ⟨hpayloads, fun packet hpacket => ?_⟩
    rw [hstamped packet hpacket]
    exact toNat_clockAfter_create nal frameRate _
  · rw [hafter, leaves_clock]
    exact toNat_clockAfter_create nal frameRate _

/-- A delimiter in a call of its own; then in one stretch a picture in three fragments, another
delimiter and another picture. -/
theorem stamps_count_delimiters_two_pictures :
    let nal : NalSender :=
      { rtp :=
          { delivery := .interleaved 2, payloadType := 96, clockRate := 90000, ssrc := 7,
            sequence := 65534, payloadType_lt := by decide }
        maxUnitSize := 3
        headLength_lt := by decide }
    let feeds : List Feed :=
      [.single ⟨9, [0xF0]⟩,
        .stream [0, 0, 0, 1, 0x65, 1, 2, 3, 0, 0, 0, 1, 9, 0xF0, 0, 0, 0, 1, 0x41, 4]]
    (∀ call ∈ history feed feeds (create nal 25, {}), call.result.isOk = true) ∧
      (leaves feed feeds (create nal 25, {})).1.timestamp.toNat = 7200 ∧
      ∃ (raw : List Bytes) (groups : List (List Packet)),
        nal.rtp.delivery.CarriesAll raw {} (leaves feed feeds (create nal 25, {})).2 ∧
        raw.mapM Packet.ofBytes? = some groups.flatten ∧
        groups.length = 4 ∧
        ∀ group, groups[1]? = some group → group.length = 3 ∧
          ∀ packet ∈ group, packet.header.timestamp.toNat = 3600 := by
  intro nal feeds
  have hok : ∀ call ∈ history feed feeds (create nal 25, {}), call.result.isOk = true := by
    decide +kernel
  have hunits : feeds.flatMap Feed.units =
      [⟨9, [0xF0]⟩, ⟨0x65, [1, 2, 3]⟩, ⟨9, [0xF0]⟩, ⟨0x41, [4]⟩] := by
    decide +kernel
  obtain ⟨raw, groups, hcarries, hread, hlength, hgroups, hclock⟩ :=
    stamps_count_delimiters nal 25 {} feeds hok
  rw [hunits] at hlength hgroups hclock
  refine ⟨hok, hclock.trans (by decide +kernel), raw, groups, hcarries, hread, hlength,
    fun group hgroup => ?_⟩
  obtain ⟨hpayloads, hstamped⟩ := hgroups 1 _ group rfl hgroup
  have hcount := congrArg List.length hpayloads
  rw [List.length_map] at hcount
  exact ⟨hcount.trans (by decide +kernel), fun packet hpacket =>
    (hstamped packet hpacket).trans (by decide +kernel)⟩

end VideoStream

end RealTimeStreaming.H264
