import RealTimeStreaming.Proofs.Audio.SampleCount
import RealTimeStreaming.Proofs.H264.PictureClock
import RealTimeStreaming.Rtp.Program

/-! The calls to a stream as programs of single packets. On a connection that never fails a packet
fails only if it is too long for a frame; so there the packets of a program do not depend on what
else is written. -/

namespace RealTimeStreaming.Rtp

namespace Program

variable {α β σ S item : Type}

theorem run_bind (p : Program α) (f : α → Program β) (state : Sender × Link) :
    (p.bind f).run state = (f (p.run state).1).run (p.run state).2 := by
  induction p generalizing state with
  | done result => rfl
  | send x next ih => exact ih _ _

/-- The programs `f` are the calls `send` packet by packet. Beside its packet numbers the stream
keeps a state of type `σ`; `view` puts the two together. -/
def Realizes (view : σ → Sender → S) (f : item → σ → Program (Except RtspError Nat × σ))
    (send : item → S × Link → Except RtspError Nat × S × Link) : Prop :=
  ∀ x t rtp link, send x (view t rtp, link) =
    let out := (f x t).run (rtp, link)
    (out.1.1, view out.1.2 out.2.1, out.2.2)

namespace Realizes

variable {view : σ → Sender → S} {f : item → σ → Program (Except RtspError Nat × σ)}
  {send : item → S × Link → Except RtspError Nat × S × Link}

theorem each (h : Realizes view f send) : Realizes view (each f) (sendEach send) := by
  intro items
  induction items with
  | nil =>
    intro t rtp link
    rfl
  | cons x items ih =>
    intro t rtp link
    have hsend := h x t rtp link
    rw [Program.each, run_bind]
    rcases hrun : (f x t).run (rtp, link) with ⟨⟨⟨e⟩ | ⟨n⟩, t'⟩, rtp', link'⟩
    · rw [hrun] at hsend
      exact sendEach_cons_of_error hsend
    · rw [hrun] at hsend
      rw [sendEach_cons_of_ok hsend, ih]
      simp only [run_bind]
      rfl

theorem leaves_all (h : Realizes view f send) (items : List item) (t : σ) (rtp : Sender)
    (link : Link) :
    leaves send items (view t rtp, link) =
      let out := (all f items t).run (rtp, link)
      (view out.1 out.2.1, out.2.2) := by
  induction items generalizing t rtp link with
  | nil => rfl
  | cons x items ih =>
    rw [leaves_cons, h x t rtp link, all, run_bind]
    exact ih _ _ _

end Realizes

theorem realizes_packet : Realizes (fun _ rtp => rtp) packet Sender.perform :=
  fun _ _ _ _ => rfl

end Program

/-! ### On a connection that never fails -/

namespace Sender

variable {s : Sender} {link : Link} {channel : UInt8}

/-- What a send over an interleaved channel gives, if only the length of a packet can fail it. -/
def outcome (s : Sender) (x : Sending) : Except RtspError Nat :=
  let length := (s.packet x.timestamp x.marker x.head x.payload).length
  if length < 65536 then .ok (Frame.headerLength + length) else .error (.frameTooLarge length)

theorem perform_of_outcome (hd : s.delivery = .interleaved channel)
    (hr : link.connection.behaviour.Reliable) (x : Sending) :
    ∃ after,
      perform x (s, link) =
        (s.outcome x, if (s.outcome x).isOk then s.advance 1 else s, after) ∧
      after.connection.behaviour = link.connection.behaviour ∧
      if (s.outcome x).isOk then
        s.delivery.Carries (s.packet x.timestamp x.marker x.head x.payload) link after
      else after = link := by
  rcases hs : link.connection.sendFrame channel (s.packet x.timestamp x.marker x.head x.payload)
    with ⟨result, sink⟩
  have hkeeps := link.connection.behaviour_sendFrame channel
    (s.packet x.timestamp x.marker x.head x.payload)
  rw [hs] at hkeeps
  have hsend : s.delivery.send link (s.packet x.timestamp x.marker x.head x.payload) =
      (result, { link with connection := sink }) := by
    simp only [hd, Delivery.send, hs]
  by_cases hlength : (s.packet x.timestamp x.marker x.head x.payload).length < 65536
  · obtain ⟨n, t, hsent⟩ := Sink.sendFrame_of_reliable hr channel hlength
    cases hs.symm.trans hsent
    obtain ⟨frame, hframe, rfl, -⟩ := Sink.taken_sendFrame hsent
    have houtcome : s.outcome x = .ok frame.length := by
      rw [outcome, if_pos hlength, Frame.length_of_encode hframe]
    rw [houtcome]
    exact ⟨_, perform_of_send hsend, hkeeps, Delivery.carries_of_send hsend⟩
  · have hsent : link.connection.sendFrame channel
        (s.packet x.timestamp x.marker x.head x.payload) = (s.outcome x, link.connection) := by
      rw [outcome, if_neg hlength, Sink.sendFrame, Frame.encode, Frame.header, if_neg hlength]
      rfl
    cases hs.symm.trans hsent
    refine ⟨link, perform_of_send hsend, rfl, ?_⟩
    rw [if_neg (by simp [outcome, hlength, Except.isOk, Except.toBool])]

end Sender

namespace Program

variable {α : Type} {s : Sender} {link : Link} {channel : UInt8}

/-- The packets of a program that go out over a connection that never fails. -/
def carried : Program α → Sender → List Sending
  | .done _, _ => []
  | .send x next, s =>
    if (s.outcome x).isOk then x :: (next (s.outcome x)).carried (s.advance 1)
    else (next (s.outcome x)).carried s

theorem carried_of_isDone {p : Program α} (h : p.isDone = true) : p.carried s = [] := by
  cases p with
  | done result => rfl
  | send x next => cases h

theorem run_of_reliable (hd : s.delivery = .interleaved channel)
    (hr : link.connection.behaviour.Reliable) (p : Program α) :
    s.delivery.CarriesAll (s.rawPackets (p.carried s)) link (p.run (s, link)).2.2 := by
  induction p generalizing s link with
  | done result => exact Delivery.carriesAll_nil _ _
  | send x next ih =>
    obtain ⟨after, hperform, hkeeps, hcarries⟩ := Sender.perform_of_outcome hd hr x
    rw [run, hperform, carried]
    simp only
    split at hcarries
    · rename_i hok
      rw [if_pos hok, if_pos hok]
      exact Delivery.carriesAll_cons hcarries (ih _ (s := s.advance 1) hd (hkeeps ▸ hr))
    · rename_i hfail
      rw [if_neg hfail, if_neg hfail, hcarries]
      exact ih _ hd hr

end Program

end RealTimeStreaming.Rtp

/-! ### The streams -/

namespace RealTimeStreaming

open Rtp (Program)

namespace Audio.AudioStream

/-- One packet of a stream whose next sample has the given number. -/
def packetProgram (samples : Bytes) (nextSample : UInt32) :
    Program (Except RtspError Nat × UInt32) :=
  .send { timestamp := .raw nextSample, marker := false, head := [], payload := samples }
    fun result =>
      .done (result, if result.isOk then nextSample + samples.length.toUInt32 else nextSample)

def program (s : AudioStream) (samples : Bytes) :
    UInt32 → Program (Except RtspError Nat × UInt32) :=
  Program.each packetProgram (slices s.samplesPerPacket samples)

/-- The stream with other numbers. -/
def renumber (s : AudioStream) (nextSample : UInt32) (rtp : Rtp.Sender) : AudioStream :=
  { s with rtp, nextSample }

theorem realizes_program (s : AudioStream) :
    Program.Realizes s.renumber s.program sendSamples := by
  have hpacket : Program.Realizes s.renumber packetProgram sendPacket := by
    intro samples nextSample rtp link
    rw [sendPacket_eq]
    obtain ⟨n, after, hp, -⟩ | ⟨e, after, hp⟩ := rtp.perform_cases link
      { timestamp := .raw nextSample, marker := false, head := [], payload := samples }
    all_goals
      simp only [renumber, sending, packetProgram, Program.run, hp]
      rfl
  intro samples
  exact hpacket.each (slices s.samplesPerPacket samples)

end Audio.AudioStream

namespace H264

namespace NalSender

def program (s : NalSender) : Rtp.Timestamp × NalUnit → Unit →
    Program (Except RtspError Nat × Unit) :=
  fun (timestamp, unit) => Program.each Program.packet (sendings s.maxUnitSize timestamp unit)

theorem realizes_program (s : NalSender) :
    Program.Realizes (fun _ rtp => { s with rtp }) s.program
      fun (timestamp, unit) => send timestamp unit := by
  rintro ⟨timestamp, unit⟩ t rtp link
  have heach := Program.realizes_packet.each (sendings s.maxUnitSize timestamp unit) t rtp link
  simp only [send_eq, heach]
  rfl

end NalSender

namespace VideoStream

/-- One unit of a stream with the given timestamp. -/
def unitProgram (s : VideoStream) (unit : NalUnit) (timestamp : UInt32) :
    Program (Except RtspError Nat × UInt32) :=
  let stamp := { s with timestamp }.stampFor unit
  (s.nal.program (.raw stamp, unit) ()).bind fun (result, _) => .done (result, stamp)

def program (s : VideoStream) : Feed → UInt32 → Program (Except RtspError Nat × UInt32)
  | .single unit => s.unitProgram unit
  | .stream data => Program.each s.unitProgram (splitUnits data)

/-- The stream with another timestamp and other packet numbers. -/
def renumber (s : VideoStream) (timestamp : UInt32) (rtp : Rtp.Sender) : VideoStream :=
  { s with nal := { s.nal with rtp }, timestamp }

theorem realizes_unitProgram (s : VideoStream) :
    Program.Realizes s.renumber s.unitProgram sendUnit := by
  intro unit timestamp rtp link
  have hnal := s.nal.realizes_program (.raw ({ s with timestamp }.stampFor unit), unit) () rtp link
  rw [unitProgram, Program.run_bind]
  simp only [Program.run]
  rw [sendUnit_eq]
  exact congrArg (fun out : Except RtspError Nat × NalSender × Link =>
    (out.1, { s with nal := out.2.1, timestamp := { s with timestamp }.stampFor unit }, out.2.2))
    hnal

theorem realizes_program (s : VideoStream) : Program.Realizes s.renumber s.program feed := by
  intro given
  cases given with
  | single unit => exact s.realizes_unitProgram unit
  | stream data => exact s.realizes_unitProgram.each (splitUnits data)

end VideoStream

end H264

end RealTimeStreaming
