import RealTimeStreaming.Demo.Media
import RealTimeStreaming.Proofs.Audio.SampleCount
import RealTimeStreaming.Proofs.H264.PictureClock

/-! Files played step by step. A stream that is played packet by packet, or unit by unit, does what
one call with the whole file does, also when a send fails; told to stop, it has sent the packets or
units before that step, each of them whole. Audio is played only if the interval between its packets
can be told: a machine that checks its products stops at packets that are too long. -/

namespace RealTimeStreaming.Demo

open Rtp (Packet sendEach)
open Audio (AudioStream)
open H264 (VideoStream NalSender NalUnit Payload splitUnits packetize)

/-- Sends in order without the count of their bytes. -/
def uncounted {σ : Type} (sent : Except RtspError Nat × σ) : Except RtspError Unit × σ :=
  (sent.1.map fun _ => (), sent.2)

/-- The flag is seen before the `k`-th step, and not before any earlier one. -/
structure FirstSeen (stopped : Nat → Bool) (k : Nat) : Prop where
  before : ∀ i < k, stopped i = false
  seen : stopped k = true

section

variable {α σ : Type} {send : α → σ → Except RtspError Nat × σ} {stopped : Nat → Bool}

/-- Steps counted from `count`, of which the `k`-th is not done any more, are the first `k` sends in
order. -/
theorem pacedFrom_eq_sendEach (count : Nat) (items : List α) (state : σ) {k : Nat}
    (hbefore : ∀ i < k, stopped (count + i) = false)
    (hstop : k < items.length → stopped (count + k) = true) :
    paced stopped send count items state = uncounted (sendEach send (items.take k) state) := by
  induction items generalizing count k state with
  | nil => simp [paced, uncounted, Except.map]
  | cons item items ih =>
    cases k with
    | zero =>
      have hnow : stopped count = true := hstop (Nat.zero_lt_succ _)
      simp [paced, hnow, uncounted, Except.map]
    | succ k =>
      have hnow : stopped count = false := hbefore 0 k.succ_pos
      have hrest (next : σ) := ih (count + 1) next (k := k)
        (fun i hi => Nat.add_right_comm count i 1 ▸ hbefore (i + 1) (Nat.succ_lt_succ hi))
        (fun hk => Nat.add_right_comm count k 1 ▸ hstop (Nat.succ_lt_succ hk))
      rw [paced, hnow, List.take_succ_cons]
      rcases hs : send item state with ⟨⟨e⟩ | ⟨n⟩, next⟩
      · rw [Rtp.sendEach_cons_of_error hs]
        rfl
      · rw [Rtp.sendEach_cons_of_ok hs]
        simp only [Bool.false_eq_true, if_false, hrest, uncounted]
        cases (sendEach send (items.take k) next).1 <;> rfl

theorem paced_eq_sendEach {items : List α} {state : σ} {k : Nat}
    (hbefore : ∀ i < k, stopped i = false) (hstop : k < items.length → stopped k = true) :
    paced stopped send 0 items state = uncounted (sendEach send (items.take k) state) := by
  apply pacedFrom_eq_sendEach
  · simpa only [Nat.zero_add] using hbefore
  · simpa only [Nat.zero_add] using hstop

theorem exists_of_uncounted {sent : Except RtspError Nat × σ} {after : σ}
    (h : uncounted sent = (.ok (), after)) : ∃ n, sent = (.ok n, after) := by
  obtain ⟨⟨e⟩ | ⟨n⟩, next⟩ := sent
  · cases h
  · cases h
    exact ⟨n, rfl⟩

end

namespace Media

variable {arithmetic : Arithmetic} {m : Media} {stopped : Nat → Bool} {rtp : Rtp.Sender}
  {link : Link} {k : Nat}

/-- The stream that the audio file is played on. -/
def audioStream (m : Media) (rtp : Rtp.Sender) : AudioStream :=
  { rtp, samplesPerPacket := m.samplesPerPacket.toNat }

/-- The stream that the video file is played on. -/
def videoStream (m : Media) (rtp : Rtp.Sender) : VideoStream :=
  .create (.ofRtp rtp) m.frameRate

/-- The audio file in packets. -/
def audioPackets (m : Media) : List Bytes :=
  slices m.samplesPerPacket.toNat (m.audio.getD [])

/-- The machine can tell how long a packet plays: it lets products wrap, or the one that it forms is
a word. -/
def TellsInterval (arithmetic : Arithmetic) (m : Media) : Prop :=
  arithmetic = .wrapping ∨ m.samplesPerPacket.toNat < 18446744073710

instance (arithmetic : Arithmetic) (m : Media) : Decidable (TellsInterval arithmetic m) :=
  inferInstanceAs (Decidable (_ ∨ _))

theorem exists_packetInterval (h : TellsInterval arithmetic m) :
    ∃ interval, m.packetInterval? arithmetic = some interval := by
  unfold packetInterval?
  obtain rfl | hfits := h
  · rw [Arithmetic.word?_wrapping]
    exact ⟨_, rfl⟩
  · have hword : m.samplesPerPacket.toNat * 1000000 < UInt64.size := by
      have hsize : UInt64.size = 18446744073709551616 := rfl
      omega
    rw [Arithmetic.word?_of_lt hword]
    exact ⟨_, rfl⟩

theorem packetInterval?_eq_none (h : ¬ TellsInterval arithmetic m) :
    m.packetInterval? arithmetic = none := by
  obtain ⟨hchecks, hlong⟩ := not_or.1 h
  have hleaves : UInt64.size ≤ m.samplesPerPacket.toNat * 1000000 := by
    have hsize : UInt64.size = 18446744073709551616 := rfl
    omega
  cases arithmetic with
  | wrapping => exact absurd rfl hchecks
  | checked => rw [packetInterval?, Arithmetic.word?_checked_of_le hleaves, Option.map_none]

theorem playAudio_eq_none (h : ¬ TellsInterval arithmetic m) :
    m.playAudio arithmetic stopped rtp link = none := by
  rw [playAudio, packetInterval?_eq_none h, Option.map_none]

/-- Audio that stops before the `k`-th packet is the packets before it. -/
theorem playAudio_eq_sendEach (h : TellsInterval arithmetic m)
    (hbefore : ∀ i < k, stopped i = false)
    (hstop : k < m.audioPackets.length → stopped k = true) :
    m.playAudio arithmetic stopped rtp link =
      some (uncounted (sendEach AudioStream.sendPacket (m.audioPackets.take k)
        (m.audioStream rtp, link))) := by
  obtain ⟨interval, htold⟩ := exists_packetInterval h
  have hslices : sendEach AudioStream.sendSamples (m.audioPackets.take k)
      (m.audioStream rtp, link) = sendEach AudioStream.sendPacket _ _ :=
    AudioStream.sendEach_sendSamples fun piece => List.mem_of_mem_take
  rw [playAudio, htold, Option.map_some, ← hslices]
  exact congrArg some (paced_eq_sendEach hbefore hstop)

/-- Video that stops before the `k`-th unit is the units before it. -/
theorem playVideo_eq_sendEach (hbefore : ∀ i < k, stopped i = false)
    (hstop : k < (splitUnits (m.video.getD [])).length → stopped k = true) :
    m.playVideo stopped rtp link =
      uncounted (sendEach VideoStream.sendUnit ((splitUnits (m.video.getD [])).take k)
        (m.videoStream rtp, link)) :=
  paced_eq_sendEach hbefore hstop

theorem playAudio_of_never (h : TellsInterval arithmetic m) (hnever : ∀ i, stopped i = false) :
    m.playAudio arithmetic stopped rtp link =
      some (uncounted (AudioStream.sendSamples (m.audio.getD []) (m.audioStream rtp, link))) := by
  rw [playAudio_eq_sendEach (k := m.audioPackets.length) h (fun i _ => hnever i)
    (fun hlt => absurd hlt (Nat.lt_irrefl _)), List.take_length]
  rfl

theorem playVideo_of_never (h : ∀ i, stopped i = false) :
    m.playVideo stopped rtp link =
      uncounted (VideoStream.sendStream (m.video.getD []) (m.videoStream rtp, link)) := by
  rw [playVideo_eq_sendEach (k := (splitUnits (m.video.getD [])).length)
    (fun i _ => h i) (fun hlt => absurd hlt (Nat.lt_irrefl _)), List.take_length]
  rfl

/-- A machine that cannot tell the interval plays no audio. In all other cases a file that is played
and never told to stop does to the stream and the link what one call with the whole file does, and
fails where that call fails. If the flag is first seen before the `k`-th step, then it does what one
call with the first `k` packets, or the first `k` units, does; and if nothing failed before, then
just these stand on the wire, each unit in all its packets. -/
theorem plays_file_or_front (arithmetic : Arithmetic) (m : Media) (stopped : Nat → Bool)
    (rtp : Rtp.Sender) (link : Link) :
    let samples := m.audio.getD []
    let units := splitUnits (m.video.getD [])
    let audio := (m.audioStream rtp, link)
    let video := (m.videoStream rtp, link)
    (¬ TellsInterval arithmetic m → m.playAudio arithmetic stopped rtp link = none) ∧
    ((∀ i, stopped i = false) →
      (TellsInterval arithmetic m → m.playAudio arithmetic stopped rtp link =
        some (uncounted (AudioStream.sendSamples samples audio))) ∧
      m.playVideo stopped rtp link =
        uncounted (VideoStream.sendStream (m.video.getD []) video)) ∧
    ∀ k, FirstSeen stopped k →
      (TellsInterval arithmetic m → m.playAudio arithmetic stopped rtp link =
        some (uncounted (AudioStream.sendSamples
          (samples.take (k * m.samplesPerPacket.toNat)) audio))) ∧
      m.playVideo stopped rtp link =
        uncounted (sendEach VideoStream.sendUnit (units.take k) video) ∧
      (∀ stream after, m.playAudio arithmetic stopped rtp link = some (.ok (), stream, after) →
        ∃ raw packets, rtp.delivery.CarriesAll raw link after ∧
          raw.mapM Packet.ofBytes? = some packets ∧
          packets.map Packet.payload = m.audioPackets.take k) ∧
      ∀ stream after, m.playVideo stopped rtp link = (.ok (), stream, after) →
        ∃ (raw : List Bytes) (groups : List (List Packet)),
          rtp.delivery.CarriesAll raw link after ∧
          raw.mapM Packet.ofBytes? = some groups.flatten ∧
          groups.map (·.map Packet.payload) = (units.take k).map fun unit =>
            (packetize NalSender.defaultMaxUnitSize unit).map Payload.bytes := by
  intro samples units audio video
  refine ⟨playAudio_eq_none, fun hnever => ⟨fun h => playAudio_of_never h hnever,
    playVideo_of_never hnever⟩, fun k hk => ?_⟩
  have haudio (h : TellsInterval arithmetic m) : m.playAudio arithmetic stopped rtp link =
      some (uncounted (sendEach AudioStream.sendPacket (m.audioPackets.take k) audio)) :=
    playAudio_eq_sendEach h hk.before fun _ => hk.seen
  have hvideo : m.playVideo stopped rtp link =
      uncounted (sendEach VideoStream.sendUnit (units.take k) video) :=
    playVideo_eq_sendEach hk.before fun _ => hk.seen
  refine ⟨fun h => ?_, hvideo, fun stream after hplay => ?_, fun stream after hplay => ?_⟩
  · rw [haudio h, audioPackets, take_slices]
    rfl
  · have h : TellsInterval arithmetic m := by
      by_contra hstops
      cases (playAudio_eq_none hstops).symm.trans hplay
    obtain ⟨n, hsent⟩ :=
      exists_of_uncounted (Option.some.inj ((haudio h).symm.trans hplay))
    exact AudioStream.carriesAll_of_sendEach hsent
  · obtain ⟨n, hsent⟩ := exists_of_uncounted (hvideo.symm.trans hplay)
    exact VideoStream.carriesAll_of_sendEach hsent

/-- Both files are told to stop before the third step, and the audio file is also played to its end,
to a connection with room for two and a half of its packets. -/
theorem plays_file_or_front_third_step :
    let m : Media :=
      { audio := some [1, 2, 3, 4, 5]
        video := some [0, 0, 1, 9, 0xF0, 0, 0, 1, 0x65, 1, 0, 0, 1, 9, 0xF0]
        samplesPerPacket := 2 }
    let rtp : Rtp.Sender :=
      { delivery := .interleaved 0, payloadType := 96, clockRate := 90000, ssrc := 7,
        sequence := 65535, payloadType_lt := by decide }
    let stopped : Nat → Bool := fun i => decide (2 ≤ i)
    let torn : Link := { connection := ({ budget := some 45 } : SinkScript).toSink }
    TellsInterval .checked m ∧ FirstSeen stopped 2 ∧
      (∃ stream after, m.playAudio .checked stopped rtp {} = some (.ok (), stream, after) ∧
        ∃ packets : List Packet, packets.map Packet.payload = [[1, 2], [3, 4]] ∧
        ∃ raw, rtp.delivery.CarriesAll raw {} after ∧
          raw.mapM Packet.ofBytes? = some packets) ∧
      (∃ groups : List (List Packet),
        groups.map (·.map Packet.payload) = [[[9, 0xF0]], [[0x65, 1]]] ∧
        ∃ raw, rtp.delivery.CarriesAll raw {} (m.playVideo stopped rtp {}).2.2 ∧
          raw.mapM Packet.ofBytes? = some groups.flatten) ∧
      m.playAudio .checked (fun _ => false) rtp torn =
        some (uncounted (AudioStream.sendSamples [1, 2, 3, 4, 5] (m.audioStream rtp, torn))) ∧
      (m.playAudio .checked (fun _ => false) rtp torn).map (·.2.2.connection.taken.length) =
        some 45 ∧
      ¬ TellsInterval .checked { m with samplesPerPacket := 18446744073710 } ∧
      Media.playAudio .checked { m with samplesPerPacket := 18446744073710 } stopped rtp {} =
        none := by
  intro m rtp stopped torn
  have htells : TellsInterval .checked m := by decide
  have hlong : ¬ TellsInterval .checked { m with samplesPerPacket := 18446744073710 } := by decide
  have hseen : FirstSeen stopped 2 := ⟨by decide, by decide⟩
  obtain ⟨-, -, hfront⟩ := plays_file_or_front .checked m stopped rtp {}
  obtain ⟨-, -, haudio, hvideo⟩ := hfront 2 hseen
  have haudioOk : (m.playAudio .checked stopped rtp {}).map (·.1.isOk) = some true := by
    decide +kernel
  have hvideoOk : (m.playVideo stopped rtp {}).1 = .ok () := by decide +kernel
  refine ⟨htells, hseen, ?_, ?_, ?_, by decide +kernel, hlong, ?_⟩
  · obtain ⟨⟨result, stream, after⟩, hplay, hok⟩ := Option.map_eq_some_iff.1 haudioOk
    cases result with
    | error e => cases hok
    | ok done =>
      obtain ⟨raw, packets, hcarries, hread, hpayloads⟩ := haudio _ _ hplay
      exact ⟨stream, after, hplay, packets, hpayloads.trans (by decide +kernel), raw, hcarries,
        hread⟩
  · obtain ⟨raw, groups, hcarries, hread, hpayloads⟩ := hvideo _ _ (Prod.ext hvideoOk rfl)
    exact ⟨groups, hpayloads.trans (by decide +kernel), raw, hcarries, hread⟩
  · exact ((plays_file_or_front .checked m (fun _ => false) rtp torn).2.1 fun _ => rfl).1 htells
  · exact (plays_file_or_front .checked { m with samplesPerPacket := 18446744073710 } stopped rtp
      {}).1 hlong

/-- Ten samples that fit in one packet. A machine that checks its products plays nothing of them,
where one call sends them all. -/
theorem long_packets_unplayed :
    let m : Media :=
      { audio := some [1, 2, 3, 4, 5, 6, 7, 8, 9, 10], samplesPerPacket := 18446744073710 }
    let rtp : Rtp.Sender :=
      { delivery := .interleaved 0, payloadType := 0, clockRate := 8000, ssrc := 7,
        sequence := 0, payloadType_lt := by decide }
    m.playAudio .checked (fun _ => false) rtp {} = none ∧
      let (result, _, after) := AudioStream.sendSamples (m.audio.getD []) (m.audioStream rtp, {})
      result = .ok 26 ∧
        after.connection.taken = [36, 0, 0, 22, 0x80, 0, 0, 0, 0, 0, 0, 0, 0, 0, 0, 7] ++
          m.audio.getD [] := by
  decide +kernel

end Media

end RealTimeStreaming.Demo
