import RealTimeStreaming.Audio
import RealTimeStreaming.Proofs.Rtp.Receiver
import RealTimeStreaming.Wire.SinkScript

/-! The samples that an audio stream counts. Each packet that goes out is stamped by the number of
samples in all packets that went out before it, over any number of calls and however they failed:
a packet that could not be sent is not counted, and nothing of its call is sent after it. -/

namespace RealTimeStreaming

/-! ### Slices of a buffer -/

section

variable {α : Type} {n : Nat}

/-- Only the last slice can be short. -/
theorem length_of_getElem?_slices (hn : 0 < n) (l : List α) {i : Nat} {piece : List α}
    (h : (slices n l)[i]? = some piece) :
    piece.length = n ∨ (i + 1 = (slices n l).length ∧ 0 < piece.length ∧ piece.length < n) := by
  by_cases hl : l = []
  · simp [hl] at h
  · have hpos := List.length_pos_iff.2 hl
    rw [slices_of_ne_nil hn hl] at h ⊢
    cases i with
    | zero =>
      cases h
      by_cases hlong : n ≤ l.length
      · exact .inl (List.length_take_of_le hlong)
      · have hdrop : l.drop n = [] := List.drop_eq_nil_iff.2 (by omega)
        rw [hdrop, slices_nil, List.length_take]
        exact .inr ⟨rfl, by omega, by omega⟩
    | succ i =>
      rw [List.getElem?_cons_succ] at h
      obtain hfull | ⟨hlast, hshort⟩ := length_of_getElem?_slices hn (l.drop n) h
      · exact .inl hfull
      · exact .inr ⟨by rw [List.length_cons, hlast], hshort⟩
termination_by l.length
decreasing_by
  simp only [List.length_drop]
  omega

/-- Slices that make up the whole sequence are all slices there are. -/
theorem eq_slices_iff (hn : 0 < n) {l : List α} {pieces : List (List α)}
    (h : pieces <+: slices n l) : pieces = slices n l ↔ pieces.flatten = l := by
  constructor
  · rintro rfl
    exact flatten_slices hn l
  · intro hflatten
    obtain ⟨rest, hrest⟩ := h
    have hempty : rest.flatten = [] := by
      have hwhole := flatten_slices hn l
      rw [← hrest, List.flatten_append, hflatten] at hwhole
      exact List.append_right_eq_self.1 hwhole
    -- No slice is empty, so there is none left.
    have hnil : rest = [] := by
      rw [List.eq_nil_iff_forall_not_mem]
      intro piece hpiece
      have hslice : piece ∈ slices n l := hrest ▸ List.mem_append_right pieces hpiece
      exact (of_mem_slices hn hslice).1 (List.flatten_eq_nil_iff.1 hempty piece hpiece)
    rw [← hrest, hnil, List.append_nil]

end

namespace Audio.AudioStream

open Rtp (Packet sendEach history leaves made accepted)

variable {s : AudioStream} {link : Link}

/-! ### One packet -/

/-- What the stream asks for a packet of samples. -/
def sending (s : AudioStream) (samples : Bytes) : Rtp.Sending where
  timestamp := .raw s.nextSample
  marker := false
  head := []
  payload := samples

/-- The stream after one more packet of samples. -/
def advance (s : AudioStream) (samples : Bytes) : AudioStream :=
  { s with
    rtp := s.rtp.advance 1
    nextSample := s.nextSample + samples.length.toUInt32 }

theorem sendPacket_eq (s : AudioStream) (link : Link) (samples : Bytes) :
    sendPacket samples (s, link) =
      let sent := Rtp.Sender.perform (s.sending samples) (s.rtp, link)
      (sent.1, if sent.1.isOk then s.advance samples else s, sent.2.2) := by
  rcases hp : Rtp.Sender.perform (s.sending samples) (s.rtp, link) with ⟨⟨e⟩ | ⟨n⟩, rtp, after⟩
  all_goals
    have hsend := hp
    simp only [Rtp.Sender.perform, sending] at hsend
    simp only [sendPacket, hsend]
  · rw [Rtp.Sender.eq_of_send_error hsend]
    rfl
  · rw [(Rtp.Sender.carries_of_send hsend).2]
    rfl

/-- The call put one packet of its samples on the wire, under the given number and stamped by the
given count of samples. -/
def Delivers (s : AudioStream) (number : UInt16) (count : Nat)
    (call : Rtp.Call Bytes (AudioStream × Link)) : Prop :=
  ∃ bytes packet, s.rtp.delivery.Carries bytes call.before.2 call.after.2 ∧
    Packet.ofBytes? bytes = some packet ∧ packet.payload = call.item ∧
    packet.header.marker = false ∧ packet.header.sequence = number ∧
    packet.header.timestamp.toNat = count % 2 ^ 32

/-- A packet goes out and moves the stream on, or it fails and leaves the stream as it was. -/
theorem sendPacket_cases (s : AudioStream) (link : Link) (samples : Bytes) :
    (∃ n after, sendPacket samples (s, link) = (.ok n, s.advance samples, after) ∧
      after.written = link.written + n ∧
      s.Delivers s.rtp.sequence s.nextSample.toNat
        { item := samples, result := .ok n, before := (s, link),
          after := (s.advance samples, after) }) ∨
    ∃ e after, sendPacket samples (s, link) = (.error e, s, after) := by
  rw [sendPacket_eq]
  have hread := s.rtp.ofBytes?_packet (s.sending samples)
  rcases hsent : s.rtp.delivery.send link
    (s.rtp.packet (.raw s.nextSample) false [] samples) with ⟨⟨e⟩ | ⟨n⟩, after⟩
  · rw [Rtp.Sender.perform_of_send (x := s.sending samples) hsent]
    exact .inr ⟨e, after, rfl⟩
  · rw [Rtp.Sender.perform_of_send (x := s.sending samples) hsent]
    refine .inl ⟨n, after, rfl, Delivery.written_send hsent, _, _,
      Delivery.carries_of_send hsent, hread, rfl, rfl, rfl, ?_⟩
    exact (Nat.mod_eq_of_lt s.nextSample.toNat_lt).symm

theorem written_of_sendPacket {samples : Bytes} {state next : AudioStream × Link} {n : Nat}
    (h : sendPacket samples state = (.ok n, next)) : next.2.written = state.2.written + n := by
  obtain ⟨m, after, hp, hwritten, -⟩ | ⟨e, after, hp⟩ := sendPacket_cases state.1 state.2 samples
  · cases h.symm.trans hp
    exact hwritten
  · cases h.symm.trans hp

theorem samplesPerPacket_sendPacket (samples : Bytes) (state : AudioStream × Link) :
    (sendPacket samples state).2.1.samplesPerPacket = state.1.samplesPerPacket := by
  obtain ⟨n, after, hp, -⟩ | ⟨e, after, hp⟩ := sendPacket_cases state.1 state.2 samples
  · rw [hp]
    rfl
  · rw [hp]

/-- A slice is cut again by the call that sends it, and comes out in one piece. -/
theorem sendEach_sendSamples {l : Bytes} {pieces : List Bytes}
    (h : ∀ piece ∈ pieces, piece ∈ slices s.samplesPerPacket l) :
    sendEach sendSamples pieces (s, link) = sendEach sendPacket pieces (s, link) := by
  apply Rtp.sendEach_congr (fun state => state.1.samplesPerPacket = s.samplesPerPacket) _ _ rfl
  · rintro piece hpiece ⟨t, link⟩ ht
    have hslice := h piece hpiece
    have hn : 0 < s.samplesPerPacket := by
      by_contra hzero
      rw [Nat.eq_zero_of_not_pos hzero] at hslice
      simp [slices, slicesAfter] at hslice
    rw [sendSamples, ht, slices_of_mem_slices hn hslice, Rtp.sendEach_singleton]
  · intro piece state ht
    rw [samplesPerPacket_sendPacket, ht]

/-- Packets of samples that all went out stand on the wire one by one, and nothing else. -/
theorem carriesAll_of_sendEach {pieces : List Bytes} {n : Nat} {after : AudioStream × Link}
    (h : sendEach sendPacket pieces (s, link) = (.ok n, after)) :
    ∃ raw packets, s.rtp.delivery.CarriesAll raw link after.2 ∧
      raw.mapM Packet.ofBytes? = some packets ∧ packets.map Packet.payload = pieces := by
  induction pieces generalizing s link n with
  | nil =>
    cases h
    exact ⟨[], [], Delivery.carriesAll_nil _ _, rfl, rfl⟩
  | cons piece pieces ih =>
    obtain ⟨first, others, ⟨t, next⟩, hp, hrest, -⟩ := Rtp.of_sendEach_cons h
    obtain ⟨m, link', hsent, -, hdelivers⟩ | ⟨e, link', hsent⟩ := sendPacket_cases s link piece
    · cases hp.symm.trans hsent
      obtain ⟨bytes, packet, hcarries, hread, hpayload, -⟩ := hdelivers
      obtain ⟨raw, packets, hall, hreads, hpayloads⟩ := ih hrest
      refine ⟨bytes :: raw, packet :: packets, Delivery.carriesAll_cons hcarries hall, ?_, ?_⟩
      · rw [List.mapM_cons, hread, hreads]
        rfl
      · rw [List.map_cons, hpayload, hpayloads]
    · cases hp.symm.trans hsent

/-! ### One call -/

/-- The packets that a call comes to send. -/
def packetCalls (call : Rtp.Call Bytes (AudioStream × Link)) :
    List (Rtp.Call Bytes (AudioStream × Link)) :=
  made sendPacket (slices call.before.1.samplesPerPacket call.item) call.before

/-- What a call with a buffer of samples does, in packets of `n` samples. -/
structure Accounts (n : Nat) (call : Rtp.Call Bytes (AudioStream × Link)) : Prop where
  /-- The call does what its packets do, and nothing else. -/
  leaves : call.after = leaves sendPacket ((packetCalls call).map (·.item)) call.before
  /-- Nothing is sent behind a packet that failed. -/
  stops : ∀ packet ∈ (packetCalls call).dropLast, packet.result.isOk = true
  front : (accepted (packetCalls call)).flatten <+: call.item
  /-- Packets are full, but for the last one of a buffer that was sent to its end. -/
  full : ∀ (i : Nat) (samples : Bytes), (accepted (packetCalls call))[i]? = some samples →
    samples.length = n ∨
      (i + 1 = (accepted (packetCalls call)).length ∧ 0 < samples.length ∧ samples.length < n ∧
        (accepted (packetCalls call)).flatten = call.item)
  succeeds : call.result.isOk = true ↔ (accepted (packetCalls call)).flatten = call.item
  counts : ∀ m, call.result = .ok m → call.after.2.written = call.before.2.written + m
  fails : ∀ e, call.result = .error e →
    (packetCalls call).getLast?.map (·.result) = some (.error e)

theorem accounts_sendSamples (hn : 0 < s.samplesPerPacket) (samples : Bytes) :
    Accounts s.samplesPerPacket
      { item := samples, result := (sendSamples samples (s, link)).1, before := (s, link),
        after := (sendSamples samples (s, link)).2 } := by
  obtain ⟨hfront, hok⟩ :=
    Rtp.accepted_made sendPacket (slices s.samplesPerPacket samples) (s, link)
  have hwhole := eq_slices_iff hn hfront
  constructor
  case leaves =>
    simp only [packetCalls, made, Rtp.map_item_history]
    exact Rtp.sendEach_eq_leaves
  case stops => exact Rtp.isOk_of_mem_dropLast_made
  case front =>
    have hflatten := hfront.flatten
    rwa [flatten_slices hn] at hflatten
  case full =>
    intro i piece hpiece
    simp only [packetCalls] at hpiece ⊢
    obtain ⟨hi, -⟩ := List.getElem?_eq_some_iff.1 hpiece
    have hslice : (slices s.samplesPerPacket samples)[i]? = some piece := by
      rw [← hpiece]
      exact (List.prefix_iff_getElem?.1 hfront i hi).trans (List.getElem?_eq_getElem hi).symm
    obtain hfull | ⟨hlast, hpos, hshort⟩ := length_of_getElem?_slices hn samples hslice
    · exact .inl hfull
    · -- The short slice is the last one, so all of them went out.
      have hall := hfront.eq_of_length_le (by omega)
      exact .inr ⟨by rw [hall, hlast], hpos, hshort, hwhole.1 hall⟩
  case succeeds => exact hok.trans hwhole
  case counts =>
    intro m hm
    exact Rtp.sendEach_raises (fun state : AudioStream × Link => state.2.written)
      written_of_sendPacket (Prod.ext hm rfl)
  case fails =>
    intro e he
    exact Rtp.getLast?_made_of_error he

/-! ### Whole runs -/

/-- How many samples the calls are about. -/
def sampleCount (calls : List (Rtp.Call Bytes (AudioStream × Link))) : Nat :=
  (calls.flatMap (·.item)).length

theorem sampleCount_cons (call : Rtp.Call Bytes (AudioStream × Link))
    (calls : List (Rtp.Call Bytes (AudioStream × Link))) :
    sampleCount (call :: calls) = call.item.length + sampleCount calls := by
  rw [sampleCount, sampleCount, List.flatMap_cons, List.length_append]

theorem toNat_advance (s : AudioStream) (samples : Bytes) (count : Nat) :
    ((s.advance samples).nextSample.toNat + count) % 2 ^ 32 =
      (s.nextSample.toNat + (samples.length + count)) % 2 ^ 32 := by
  simp only [advance, UInt32.toNat_add, Nat.toUInt32_eq, UInt32.toNat_ofNat']
  omega

/-- The packets that go out are numbered one after the other, and stamped by the samples of those
before them. -/
theorem history_sendPacket (s : AudioStream) (link : Link) (packets : List Bytes) :
    let delivered := (history sendPacket packets (s, link)).filter (·.result.isOk)
    (∀ (k : Nat) (call : Rtp.Call Bytes (AudioStream × Link)), delivered[k]? = some call →
      s.Delivers (s.rtp.sequence + .ofNat k)
        (s.nextSample.toNat + sampleCount (delivered.take k)) call) ∧
    (leaves sendPacket packets (s, link)).1.nextSample.toNat =
      (s.nextSample.toNat + sampleCount delivered) % 2 ^ 32 := by
  induction packets generalizing s link with
  | nil => simp [history, sampleCount, Nat.mod_eq_of_lt s.nextSample.toNat_lt]
  | cons samples packets ih =>
    intro delivered
    obtain ⟨n, after, hp, -, hfirst⟩ | ⟨e, after, hp⟩ := sendPacket_cases s link samples
    · obtain ⟨hlater, hnext⟩ := ih (s.advance samples) after
      simp only [delivered, history, Rtp.leaves_cons, hp, List.filter_cons, Except.isOk,
        Except.toBool, if_true]
      constructor
      · intro k call hk
        cases k with
        | zero =>
          cases hk
          rw [show s.rtp.sequence + UInt16.ofNat 0 = s.rtp.sequence from UInt16.add_zero _]
          exact hfirst
        | succ k =>
          obtain ⟨bytes, packet, hcarries, hread, hpayload, hmarker, hnumber, hstamp⟩ :=
            hlater k call hk
          refine ⟨bytes, packet, hcarries, hread, hpayload, hmarker, ?_, ?_⟩
          · rw [hnumber, Nat.add_comm k 1, UInt16.ofNat_add, ← UInt16.add_assoc]
            rfl
          · rw [hstamp, toNat_advance, List.take_succ_cons, sampleCount_cons]
            rfl
      · rw [hnext, toNat_advance, sampleCount_cons]
        rfl
    · obtain ⟨hlater, hnext⟩ := ih s after
      simp only [delivered, history, Rtp.leaves_cons, hp, List.filter_cons, Except.isOk,
        Except.toBool]
      exact ⟨hlater, hnext⟩

theorem samplesPerPacket_sendSamples (samples : Bytes) (state : AudioStream × Link) :
    (sendSamples samples state).2.1.samplesPerPacket = state.1.samplesPerPacket := by
  have hafter : (sendSamples samples state).2 = leaves sendPacket
      (Rtp.attempted sendPacket (slices state.1.samplesPerPacket samples) state) state :=
    Rtp.sendEach_eq_leaves
  rw [hafter]
  refine Rtp.leaves_invariant
    (fun next : AudioStream × Link => next.1.samplesPerPacket = state.1.samplesPerPacket) ?_ rfl
  intro packet next hnext
  exact (samplesPerPacket_sendPacket packet next).trans hnext

/-- For packets of any size and any calls over a link that may fail any packet: each call sends
its samples from the first on until a packet fails, and says whether and how much it sent; every
packet that goes out in the run is stamped by the count of all samples that went out before it and
numbered without a gap; and the timestamp of the stream is the count of the samples that went
out. -/
theorem history_counts_samples (rtp : Rtp.Sender) {n : Nat} (hn : 0 < n) (link : Link)
    (buffers : List Bytes) :
    let start : AudioStream × Link := ({ rtp, samplesPerPacket := n }, link)
    let calls := history sendSamples buffers start
    let delivered := (calls.flatMap packetCalls).filter (·.result.isOk)
    (∀ call ∈ calls, Accounts n call) ∧
    (∀ (k : Nat) (packet : Rtp.Call Bytes (AudioStream × Link)), delivered[k]? = some packet →
      start.1.Delivers (rtp.sequence + .ofNat k) (sampleCount (delivered.take k)) packet) ∧
    (leaves sendSamples buffers start).1.nextSample.toNat = sampleCount delivered % 2 ^ 32 := by
  intro start calls delivered
  constructor
  · intro call hcall
    obtain ⟨hsize, hresult, hafter⟩ := Rtp.invariant_of_mem_history
      (fun state : AudioStream × Link => state.1.samplesPerPacket = n)
      (fun samples state h => (samplesPerPacket_sendSamples samples state).trans h) rfl call hcall
    obtain ⟨samples, result, ⟨s, before⟩, after⟩ := call
    simp only at hsize hresult hafter
    subst hsize hresult hafter
    exact accounts_sendSamples hn samples
  · have hsends (samples : Bytes) (state : AudioStream × Link) : (sendSamples samples state).2 =
        leaves sendPacket
          (Rtp.attempted sendPacket (slices state.1.samplesPerPacket samples) state) state :=
      Rtp.sendEach_eq_leaves
    obtain ⟨packets, hpackets, hleaves⟩ := Rtp.exists_flatMap_history
      (fun samples state =>
        Rtp.attempted sendPacket (slices state.1.samplesPerPacket samples) state)
      hsends buffers start
    have hrun := history_sendPacket start.1 link packets
    rw [show (start.1, link) = start from rfl, ← hpackets, ← hleaves] at hrun
    obtain ⟨hstamps, htotal⟩ := hrun
    simp only [start, UInt32.toNat_zero, Nat.zero_add] at hstamps htotal
    exact ⟨hstamps, htotal⟩

/-- Two buffers in packets of three samples, to a connection with room for two and a half of the
packets: the first buffer goes out in a full and a short packet, the second not at all. -/
theorem history_counts_samples_torn :
    let rtp : Rtp.Sender :=
      { delivery := .interleaved 0, payloadType, clockRate, ssrc := 7, sequence := 65535,
        payloadType_lt := by decide }
    let link : Link := { connection := ({ budget := some 45 } : SinkScript).toSink }
    let start : AudioStream × Link := ({ rtp, samplesPerPacket := 3 }, link)
    let buffers : List Bytes := [[1, 2, 3, 4], [5, 6]]
    let calls := history sendSamples buffers start
    let delivered := (calls.flatMap packetCalls).filter (·.result.isOk)
    0 < 3 ∧ delivered.map (·.item) = [[1, 2, 3], [4]] ∧
      calls.map (·.result.toOption) = [some 36, none] ∧
      (∀ call ∈ calls, Accounts 3 call) ∧
      (∀ packet, delivered[1]? = some packet → start.1.Delivers 0 3 packet) ∧
      (leaves sendSamples buffers start).1.nextSample.toNat = 4 := by
  intro rtp link start buffers calls delivered
  obtain ⟨hcalls, hstamps, htotal⟩ := history_counts_samples rtp (by decide : 0 < 3) link buffers
  have hdelivered : delivered.map (·.item) = [[1, 2, 3], [4]] := by decide +kernel
  refine ⟨by decide, hdelivered, by decide +kernel, hcalls, ?_, ?_⟩
  · intro packet hpacket
    have hstamp := hstamps 1 packet hpacket
    have hnumber : rtp.sequence + .ofNat 1 = 0 := by decide
    have hcount : sampleCount (delivered.take 1) = 3 := by decide +kernel
    rw [hnumber, hcount] at hstamp
    exact hstamp
  · have hcount : sampleCount delivered = 4 := by decide +kernel
    exact htotal.trans (congrArg (· % 2 ^ 32) hcount)

end Audio.AudioStream

end RealTimeStreaming
