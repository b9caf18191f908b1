import Mathlib.Data.List.Forall2
import RealTimeStreaming.H264.Packetizer
import RealTimeStreaming.Proofs.Rtp.Receiver

/-! A receiver of an H.264 stream by RFC 6184: it takes a payload of a unit's type as a unit,
and puts fragments together, the unit's header byte rebuilt from the two bytes before the first
of them. It gets back the units that were sent, whatever their sizes. -/

namespace RealTimeStreaming.H264

/-! ### Reading payloads -/

/-- What the payload of one packet holds. -/
inductive Piece where
  | unit (bytes : Bytes)
  /-- A part of a unit that starts with the byte `first`. -/
  | fragment (first : UInt8) (isFirst isLast reserved : Bool) (content : Bytes)
deriving DecidableEq, Repr

def Piece.ofPayload? : Bytes → Option Piece
  | [] => none
  | indicator :: rest =>
    if 1 ≤ indicator &&& 0x1F ∧ indicator &&& 0x1F ≤ 23 then some (.unit (indicator :: rest))
    else if indicator &&& 0x1F = 28 then
      match rest with
      | [] => none
      | head :: content =>
        some (.fragment ((indicator &&& 0xE0) ||| (head &&& 0x1F)) (head &&& 0x80 != 0)
          (head &&& 0x40 != 0) (head &&& 0x20 != 0) content)
    else none

/-- The units that have come in, and the one whose fragments are coming in. -/
structure Assembly where
  units : List Bytes := []
  begun : Option Bytes := none
deriving DecidableEq, Repr

namespace Assembly

/-- The unit under way with one more part, which is the first of it if and only if it says so. -/
def join : Option Bytes → (isFirst : Bool) → UInt8 → Bytes → Option Bytes
  | none, true, first, content => some (first :: content)
  | some sofar, false, _, content => some (sofar ++ content)
  | _, _, _, _ => none

def add (a : Assembly) : Piece → Option Assembly
  | .unit bytes => if a.begun = none then some { a with units := a.units ++ [bytes] } else none
  | .fragment first isFirst isLast _ content =>
    (join a.begun isFirst first content).map fun bytes =>
      if isLast then { units := a.units ++ [bytes], begun := none }
      else { a with begun := some bytes }

def receive (a : Assembly) (payload : Bytes) : Option Assembly :=
  (Piece.ofPayload? payload).bind a.add

end Assembly

/-- The units in payloads, if each belongs where it stands and no unit is left unfinished. -/
def reassemble (payloads : List Bytes) : Option (List Bytes) :=
  (payloads.foldlM Assembly.receive {}).bind fun a =>
    if a.begun = none then some a.units else none

/-! ### Payloads of one unit -/

/-- The two bytes before a fragment, from the first byte of its unit. -/
theorem fragment_bytes : ∀ (first : UInt8) (isFirst isLast : Bool),
    let header := NalHeader.ofByte first
    let indicator := (header.toByte &&& 0xE0) ||| fragmentType
    let head := Octet.flag isFirst 0x80 ||| Octet.flag isLast 0x40 ||| header.unitType
    indicator &&& 0x1F = 28 ∧ (indicator &&& 0xE0) ||| (head &&& 0x1F) = first ∧
      (head &&& 0x80 != 0) = isFirst ∧ (head &&& 0x40 != 0) = isLast ∧
      (head &&& 0x20 != 0) = false := by
  decide +kernel

/-- A fragment tells the first byte of its unit and its own place. -/
theorem ofPayload?_fragment (unit : NalUnit) (isFirst isLast : Bool) (content : Bytes) :
    Piece.ofPayload? (fragmentHead unit isFirst isLast ++ content) =
      some (.fragment unit.first isFirst isLast false content) := by
  obtain ⟨htype, hfirst, hstart, hend, hreserved⟩ := fragment_bytes unit.first isFirst isLast
  simp only [fragmentHead, NalUnit.header, List.cons_append, List.nil_append, Piece.ofPayload?,
    htype, hfirst, hstart, hend, hreserved]
  rfl

theorem ofPayload?_unit {unit : NalUnit}
    (h : 1 ≤ unit.header.unitType ∧ unit.header.unitType ≤ 23) :
    Piece.ofPayload? unit.bytes = some (.unit unit.bytes) := by
  unfold Piece.ofPayload? NalUnit.bytes
  exact if_pos h

/-- The bytes of a payload, as they stand in a packet. -/
def Payload.bytes (p : Payload) : Bytes :=
  p.head ++ p.content

section

variable {maxUnitSize : Nat} {unit : NalUnit}

theorem length_fragments :
    (fragments maxUnitSize unit).length =
      (slices (maxUnitSize - fragmentHeadLength) unit.payload).length := by
  simp [fragments]

theorem getElem?_fragments (i : Nat) :
    (fragments maxUnitSize unit)[i]? =
      (slices (maxUnitSize - fragmentHeadLength) unit.payload)[i]?.map fun piece =>
        let isLast := i + 1 == (fragments maxUnitSize unit).length
        { marker := unit.header.isCodedSlice && isLast
          head := fragmentHead unit (i == 0) isLast
          content := piece } := by
  rw [length_fragments, length_slices]
  simp only [fragments, List.getElem?_map, List.getElem?_zipIdx, Nat.zero_add, Option.map_map]
  rfl

theorem map_bytes_fragments {pieces : List Bytes}
    (h : slices (maxUnitSize - fragmentHeadLength) unit.payload = pieces) :
    (fragments maxUnitSize unit).map Payload.bytes =
      pieces.zipIdx.map fun (piece, j) =>
        fragmentHead unit (j == 0) (j + 1 == pieces.length) ++ piece := by
  rw [fragments, ← length_slices, h, List.map_map]
  rfl

/-- A unit that does not fit into one packet gives at least two slices. -/
theorem slices_of_long (hm : fragmentHeadLength < maxUnitSize)
    (hlong : maxUnitSize < unit.bytes.length) :
    ∃ start rest, rest ≠ [] ∧
      slices (maxUnitSize - fragmentHeadLength) unit.payload = start :: rest := by
  have hpayload : maxUnitSize - fragmentHeadLength < unit.payload.length := by
    simp only [NalUnit.bytes, List.length_cons, fragmentHeadLength] at hlong hm ⊢
    omega
  have hpos : 0 < maxUnitSize - fragmentHeadLength := by omega
  have hdrop : unit.payload.drop (maxUnitSize - fragmentHeadLength) ≠ [] := by
    rw [Ne, List.drop_eq_nil_iff]
    omega
  refine ⟨_, _, ?_, slices_of_ne_nil hpos (List.ne_nil_of_length_pos (by omega))⟩
  rw [slices_of_ne_nil hpos hdrop]
  exact List.cons_ne_nil _ _

theorem length_bytes_le (hm : fragmentHeadLength < maxUnitSize) {p : Payload}
    (hp : p ∈ packetize maxUnitSize unit) : p.bytes.length ≤ maxUnitSize := by
  unfold packetize at hp
  split at hp
  · rename_i hfits
    rw [List.mem_singleton] at hp
    rw [hp]
    exact hfits
  · obtain ⟨i, hi⟩ := List.mem_iff_getElem?.1 hp
    rw [getElem?_fragments, Option.map_eq_some_iff] at hi
    obtain ⟨piece, hpiece, rfl⟩ := hi
    have hlength := (of_mem_slices (by omega) (List.mem_of_getElem? hpiece)).2
    simp only [Payload.bytes, fragmentHead, List.length_append, List.length_cons,
      List.length_nil, fragmentHeadLength] at hlength hm ⊢
    omega

/-- The marker is on the last payload of a unit that carries a picture. -/
theorem marker_of_getElem? {i : Nat} {p : Payload}
    (hp : (packetize maxUnitSize unit)[i]? = some p) :
    p.marker = (unit.header.isCodedSlice && i + 1 == (packetize maxUnitSize unit).length) := by
  unfold packetize at hp ⊢
  split
  · rename_i hfits
    rw [if_pos hfits] at hp
    cases i with
    | zero =>
      cases hp
      simp
    | succ i => cases hp
  · rename_i hlong
    rw [if_neg hlong, getElem?_fragments, Option.map_eq_some_iff] at hp
    obtain ⟨piece, -, rfl⟩ := hp
    rfl

/-- A unit too large for one packet is cut into two fragments at least. -/
theorem fragment_of_getElem? (hm : fragmentHeadLength < maxUnitSize)
    (hlong : maxUnitSize < unit.bytes.length) :
    2 ≤ (packetize maxUnitSize unit).length ∧
      ∀ (i : Nat) (p : Payload), (packetize maxUnitSize unit)[i]? = some p →
        ∃ content, content ≠ [] ∧ Piece.ofPayload? p.bytes =
          some (.fragment unit.first (i == 0) (i + 1 == (packetize maxUnitSize unit).length)
            false content) := by
  obtain ⟨start, rest, hrest, hslices⟩ := slices_of_long hm hlong
  rw [packetize, if_neg (Nat.not_le_of_gt hlong)]
  constructor
  · have hpos := List.length_pos_iff.2 hrest
    rw [length_fragments, hslices, List.length_cons]
    omega
  · intro i p hp
    rw [getElem?_fragments, Option.map_eq_some_iff] at hp
    obtain ⟨piece, hpiece, rfl⟩ := hp
    exact ⟨piece, (of_mem_slices (by omega) (List.mem_of_getElem? hpiece)).1,
      ofPayload?_fragment unit _ _ piece⟩

/-! ### Putting a unit together -/

/-- Later fragments are appended to the unit under way; the last of them ends it. -/
theorem foldlM_receive_later (unit : NalUnit) (units : List Bytes) {pieces : List Bytes}
    (hne : pieces ≠ []) {i count : Nat} (hi : 0 < i) (hcount : i + pieces.length = count)
    (sofar : Bytes) :
    ((pieces.zipIdx i).map fun (piece, j) =>
        fragmentHead unit (j == 0) (j + 1 == count) ++ piece).foldlM Assembly.receive
          { units, begun := some sofar } =
      some { units := units ++ [sofar ++ pieces.flatten], begun := none } := by
  induction pieces generalizing i sofar with
  | nil => exact absurd rfl hne
  | cons piece pieces ih =>
    have hfirst : (i == 0) = false := by
      rw [beq_eq_false_iff_ne]
      omega
    have hreceive (isLast : Bool) :
        Assembly.receive { units, begun := some sofar }
            (fragmentHead unit (i == 0) isLast ++ piece) =
          some (if isLast then { units := units ++ [sofar ++ piece], begun := none }
            else { units, begun := some (sofar ++ piece) }) := by
      rw [Assembly.receive, ofPayload?_fragment, hfirst]
      rfl
    simp only [List.zipIdx_cons, List.map_cons, List.foldlM_cons, hreceive]
    by_cases hlast : pieces = []
    · subst hlast
      have hend : (i + 1 == count) = true := by
        rw [beq_iff_eq]
        simpa using hcount
      simp [hend]
    · have hmore : (i + 1 == count) = false := by
        have := List.length_pos_iff.2 hlast
        rw [List.length_cons] at hcount
        rw [beq_eq_false_iff_ne]
        omega
      rw [List.length_cons] at hcount
      have hrest := ih hlast (Nat.succ_pos i) (by omega) (sofar ++ piece)
      simp only [hmore, Bool.false_eq_true, if_false, Option.bind_eq_bind, Option.bind_some]
      rw [hrest, List.flatten_cons, List.append_assoc]

/-- Between units, the payloads of a unit add just that unit. -/
theorem foldlM_receive_packetize (hm : fragmentHeadLength < maxUnitSize)
    (ht : 1 ≤ unit.header.unitType ∧ unit.header.unitType ≤ 23) (units : List Bytes) :
    ((packetize maxUnitSize unit).map Payload.bytes).foldlM Assembly.receive
        { units, begun := none } = some { units := units ++ [unit.bytes], begun := none } := by
  unfold packetize
  split
  · simp only [List.map_cons, List.map_nil, List.foldlM_cons, List.foldlM_nil, Payload.bytes,
      List.nil_append, Assembly.receive, ofPayload?_unit ht]
    rfl
  · rename_i hlong
    obtain ⟨start, rest, hrest, hslices⟩ := slices_of_long hm (Nat.lt_of_not_le hlong)
    have hpayload : start ++ rest.flatten = unit.payload := by
      rw [← List.flatten_cons, ← hslices]
      exact flatten_slices (by omega) unit.payload
    have hmore : (0 + 1 == (start :: rest).length) = false := by
      have := List.length_pos_iff.2 hrest
      rw [beq_eq_false_iff_ne, List.length_cons]
      omega
    have hreceive : Assembly.receive { units, begun := none }
        (fragmentHead unit (0 == 0) (0 + 1 == (start :: rest).length) ++ start) =
          some { units, begun := some (unit.first :: start) } := by
      rw [Assembly.receive, ofPayload?_fragment, hmore]
      rfl
    have hlater := foldlM_receive_later unit units hrest Nat.one_pos
      (Nat.add_comm 1 rest.length) (unit.first :: start)
    rw [map_bytes_fragments hslices, List.zipIdx_cons, List.map_cons, List.foldlM_cons, hreceive]
    simp only [Option.bind_eq_bind, Option.bind_some, List.length_cons]
    rw [hlater, List.cons_append, hpayload]
    rfl

end

/-! ### Sending units -/

open Rtp (Packet Sending packetsOn?)

/-- What a stream is asked to send for a unit. -/
def sendings (maxUnitSize : Nat) (timestamp : Rtp.Timestamp) (unit : NalUnit) : List Sending :=
  (packetize maxUnitSize unit).map fun p =>
    { timestamp, marker := p.marker, head := p.head, payload := p.content }

/-- One call put a unit on a channel, in these packets and with nothing else. -/
structure Conveys (maxUnitSize : Nat) (channel : UInt8) (clockRate : UInt32)
    (call : Rtp.Call (Rtp.Timestamp × NalUnit) (NalSender × Link)) (packets : List Packet) :
    Prop where
  /-- The count that the call gives is that of the bytes on the wire. -/
  sent : ∃ wire, call.after.2.connection.taken = call.before.2.connection.taken ++ wire ∧
    call.result = .ok wire.length ∧ packetsOn? channel wire = some packets
  fits : ∀ packet ∈ packets, packet.payload.length ≤ maxUnitSize
  stamped : ∀ packet ∈ packets, packet.header.timestamp = call.item.1.toClock clockRate
  marked : ∀ (i : Nat) (packet : Packet), packets[i]? = some packet →
    packet.header.marker = (call.item.2.header.isCodedSlice && i + 1 == packets.length)
  whole : call.item.2.bytes.length ≤ maxUnitSize →
    packets.map Packet.payload = [call.item.2.bytes]
  cut : maxUnitSize < call.item.2.bytes.length → 2 ≤ packets.length ∧
    ∀ (i : Nat) (packet : Packet), packets[i]? = some packet →
      ∃ content, content ≠ [] ∧ Piece.ofPayload? packet.payload =
        some (.fragment call.item.2.first (i == 0) (i + 1 == packets.length) false content)

namespace NalSender

variable {s : NalSender} {link : Link} {channel : UInt8}

theorem send_eq (s : NalSender) (link : Link) (timestamp : Rtp.Timestamp) (unit : NalUnit) :
    send timestamp unit (s, link) =
      let sent := Rtp.sendEach Rtp.Sender.perform (sendings s.maxUnitSize timestamp unit)
        (s.rtp, link)
      (sent.1, { s with rtp := sent.2.1 }, sent.2.2) := by
  simp only [send, sendings, Rtp.sendEach, List.foldl_map]
  rfl

/-- The packets of a unit, each with what one payload of the unit says. -/
theorem exists_of_getElem?_packets {timestamp : Rtp.Timestamp} {unit : NalUnit} {i : Nat}
    {packet : Packet}
    (h : (s.rtp.packets (sendings s.maxUnitSize timestamp unit))[i]? = some packet) :
    ∃ p, (packetize s.maxUnitSize unit)[i]? = some p ∧ packet.payload = p.bytes ∧
      packet.header.marker = p.marker ∧
      packet.header.timestamp = timestamp.toClock s.rtp.clockRate := by
  rw [Rtp.Sender.getElem?_packets, sendings, List.getElem?_map, Option.map_map,
    Option.map_eq_some_iff] at h
  obtain ⟨p, hp, rfl⟩ := h
  exact ⟨p, hp, rfl, rfl, rfl⟩

theorem map_payload_packets (s : NalSender) (timestamp : Rtp.Timestamp) (unit : NalUnit) :
    (s.rtp.packets (sendings s.maxUnitSize timestamp unit)).map Packet.payload =
      (packetize s.maxUnitSize unit).map Payload.bytes := by
  apply List.ext_getElem?
  intro i
  rw [List.getElem?_map, Rtp.Sender.getElem?_packets, sendings, List.getElem?_map,
    List.getElem?_map, Option.map_map, Option.map_map]
  rfl

/-- What a unit's packets say, wherever they were put. -/
theorem conveys_of_sent {timestamp : Rtp.Timestamp} {unit : NalUnit} {wire : Bytes}
    {after : NalSender × Link}
    (htaken : after.2.connection.taken = link.connection.taken ++ wire)
    (hread : packetsOn? channel wire =
      some (s.rtp.packets (sendings s.maxUnitSize timestamp unit))) :
    Conveys s.maxUnitSize channel s.rtp.clockRate
      { item := (timestamp, unit), result := .ok wire.length, before := (s, link), after }
      (s.rtp.packets (sendings s.maxUnitSize timestamp unit)) := by
  have hlength : (s.rtp.packets (sendings s.maxUnitSize timestamp unit)).length =
      (packetize s.maxUnitSize unit).length := by
    rw [Rtp.Sender.length_packets, sendings, List.length_map]
  refine ⟨⟨wire, htaken, rfl, hread⟩, ?_, ?_, ?_, ?_, ?_⟩
  · intro packet hpacket
    obtain ⟨i, hi⟩ := List.mem_iff_getElem?.1 hpacket
    obtain ⟨p, hp, hpayload, -, -⟩ := exists_of_getElem?_packets hi
    rw [hpayload]
    exact length_bytes_le s.headLength_lt (List.mem_of_getElem? hp)
  · intro packet hpacket
    obtain ⟨i, hi⟩ := List.mem_iff_getElem?.1 hpacket
    obtain ⟨p, -, -, -, hstamp⟩ := exists_of_getElem?_packets hi
    exact hstamp
  · intro i packet hi
    obtain ⟨p, hp, -, hmarker, -⟩ := exists_of_getElem?_packets hi
    rw [hlength, hmarker]
    exact marker_of_getElem? hp
  · intro hfits
    rw [map_payload_packets, packetize, if_pos hfits]
    rfl
  · intro hlong
    obtain ⟨htwo, hfragments⟩ := fragment_of_getElem? s.headLength_lt hlong
    rw [hlength]
    refine ⟨htwo, fun i packet hi => ?_⟩
    obtain ⟨p, hp, hpayload, -, -⟩ := exists_of_getElem?_packets hi
    rw [hpayload]
    exact hfragments i p hp

/-- A unit sent over a link that never fails. -/
theorem send_of_reliable (hd : s.rtp.delivery = .interleaved channel)
    (hr : link.connection.behaviour.Reliable) (hm : s.maxUnitSize ≤ 65523)
    (timestamp : Rtp.Timestamp) (unit : NalUnit) :
    let count := (sendings s.maxUnitSize timestamp unit).length
    ∃ wire after,
      send timestamp unit (s, link) =
        (.ok wire.length, { s with rtp := s.rtp.advance count }, after) ∧
      after.connection.taken = link.connection.taken ++ wire ∧
      after.connection.behaviour = link.connection.behaviour ∧
      packetsOn? channel wire =
        some (s.rtp.packets (sendings s.maxUnitSize timestamp unit)) := by
  have hfits : ∀ x ∈ sendings s.maxUnitSize timestamp unit,
      Rtp.Header.length + (x.head.length + x.payload.length) < 65536 := by
    intro x hx
    obtain ⟨p, hp, rfl⟩ := List.mem_map.1 hx
    have hlength := length_bytes_le s.headLength_lt hp
    rw [Payload.bytes, List.length_append] at hlength
    simp only [Rtp.Header.length]
    omega
  obtain ⟨wire, after, hsent, htaken, hkeeps, hread⟩ :=
    Rtp.Sender.sendEach_of_reliable hd hr hfits
  refine ⟨wire, after, ?_, htaken, hkeeps, hread⟩
  rw [send_eq, hsent]

/-- A run of units over a link that never fails, with a receiver that stands between units. -/
theorem history_conveys (hd : s.rtp.delivery = .interleaved channel)
    (hr : link.connection.behaviour.Reliable) (hm : s.maxUnitSize ≤ 65523)
    {sends : List (Rtp.Timestamp × NalUnit)}
    (ht : ∀ x ∈ sends, 1 ≤ x.2.header.unitType ∧ x.2.header.unitType ≤ 23)
    (units : List Bytes) :
    let sendOne := fun x : Rtp.Timestamp × NalUnit => send x.1 x.2
    ∃ (wire : Bytes) (groups : List (List Packet)),
      (Rtp.leaves sendOne sends (s, link)).2.connection.taken = link.connection.taken ++ wire ∧
      packetsOn? channel wire = some groups.flatten ∧
      (groups.flatten.map Packet.payload).foldlM Assembly.receive { units, begun := none } =
        some { units := units ++ sends.map fun x => x.2.bytes, begun := none } ∧
      List.Forall₂ (Conveys s.maxUnitSize channel s.rtp.clockRate)
        (Rtp.history sendOne sends (s, link)) groups := by
  intro sendOne
  induction sends generalizing s link units with
  | nil =>
    refine ⟨[], [], (List.append_nil _).symm, Rtp.packetsOn?_nil channel, ?_, .nil⟩
    simp
  | cons x sends ih =>
    obtain ⟨wire, after, hsent, htaken, hkeeps, hread⟩ := send_of_reliable hd hr hm x.1 x.2
    let next := { s with rtp := s.rtp.advance (sendings s.maxUnitSize x.1 x.2).length }
    obtain ⟨more, groups, htaken', hread', hunits, hconveys⟩ :=
      ih (s := next) hd (hkeeps ▸ hr : after.connection.behaviour.Reliable) hm
        (fun y hy => ht y (List.mem_cons_of_mem x hy)) (units ++ [x.2.bytes])
    have hone : sendOne x (s, link) = (.ok wire.length, next, after) := hsent
    refine ⟨wire ++ more, s.rtp.packets (sendings s.maxUnitSize x.1 x.2) :: groups,
      ?_, Rtp.packetsOn?_append hread hread', ?_, ?_⟩
    · rw [Rtp.leaves_cons, hone]
      exact htaken'.trans (by rw [htaken, List.append_assoc])
    · rw [List.flatten_cons, List.map_append, List.foldlM_append, map_payload_packets,
        foldlM_receive_packetize s.headLength_lt (ht x List.mem_cons_self)]
      simp only [Option.bind_eq_bind, Option.bind_some]
      rw [hunits, List.append_assoc]
      rfl
    · rw [Rtp.history, hone]
      exact .cons (conveys_of_sent htaken hread) hconveys

/-- The units sent over a link that never fails come together again at the other end, whatever
their sizes. -/
theorem history_reassembles (s : NalSender) (link : Link) (channel : UInt8)
    (hd : s.rtp.delivery = .interleaved channel) (hr : link.connection.behaviour.Reliable)
    (hm : s.maxUnitSize ≤ 65523) (sends : List (Rtp.Timestamp × NalUnit))
    (ht : ∀ x ∈ sends, 1 ≤ x.2.header.unitType ∧ x.2.header.unitType ≤ 23) :
    let sendOne := fun x : Rtp.Timestamp × NalUnit => send x.1 x.2
    ∃ (wire : Bytes) (groups : List (List Packet)),
      (Rtp.leaves sendOne sends (s, link)).2.connection.taken = link.connection.taken ++ wire ∧
      packetsOn? channel wire = some groups.flatten ∧
      reassemble (groups.flatten.map Packet.payload) = some (sends.map fun x => x.2.bytes) ∧
      List.Forall₂ (Conveys s.maxUnitSize channel s.rtp.clockRate)
        (Rtp.history sendOne sends (s, link)) groups := by
  intro sendOne
  obtain ⟨wire, groups, htaken, hread, hunits, hconveys⟩ := history_conveys hd hr hm ht []
  refine ⟨wire, groups, htaken, hread, ?_, hconveys⟩
  rw [reassemble, hunits]
  rfl

/-- A picture in three fragments of one byte and a parameter set in one packet, across the wrap
of the sequence number. -/
theorem history_reassembles_two_units :
    let s : NalSender :=
      { rtp :=
          { delivery := .interleaved 2, payloadType := 96, clockRate := 90000, ssrc := 7,
            sequence := 65534, payloadType_lt := by decide }
        maxUnitSize := 3
        headLength_lt := by decide }
    let sends : List (Rtp.Timestamp × NalUnit) :=
      [(.raw 900, ⟨0x65, [1, 2, 3]⟩), (.microseconds 40000, ⟨0x67, [4, 5]⟩)]
    let sendOne := fun x : Rtp.Timestamp × NalUnit => send x.1 x.2
    Behaviour.accepting.Reliable ∧
      (∀ x ∈ sends, 1 ≤ x.2.header.unitType ∧ x.2.header.unitType ≤ 23) ∧
      ∃ (wire : Bytes) (groups : List (List Packet)),
        (Rtp.leaves sendOne sends (s, {})).2.connection.taken = wire ∧ wire.length = 76 ∧
          packetsOn? 2 wire = some groups.flatten ∧
          reassemble (groups.flatten.map Packet.payload) =
            some [[0x65, 1, 2, 3], [0x67, 4, 5]] ∧
          List.Forall₂ (Conveys 3 2 90000) (Rtp.history sendOne sends (s, {})) groups := by
  intro s sends sendOne
  have htypes : ∀ x ∈ sends, 1 ≤ x.2.header.unitType ∧ x.2.header.unitType ≤ 23 := by decide
  obtain ⟨wire, groups, htaken, hread, hunits, hconveys⟩ :=
    history_reassembles s {} 2 rfl Behaviour.reliable_accepting (by decide) sends htypes
  have hlength : (Rtp.leaves sendOne sends (s, {})).2.connection.taken.length = 76 := by
    decide +kernel
  refine ⟨Behaviour.reliable_accepting, htypes, wire, groups, htaken, ?_, hread, hunits, hconveys⟩
  rw [← hlength]
  exact congrArg List.length htaken.symm

end NalSender

end RealTimeStreaming.H264
