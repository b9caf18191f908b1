import RealTimeStreaming.Proofs.Rtp.Numbering
import RealTimeStreaming.Proofs.Streams.Program
import RealTimeStreaming.Proofs.Wire.Output
import RealTimeStreaming.Sharing

/-! Streams that share one connection with each other and with the responses. Every packet and
every response is written as one message, so however the writes are interleaved, a client finds on
each channel what its stream would have written alone, and between the frames the responses. -/

namespace RealTimeStreaming

open Rtp (Packet Program Sending leaves)

/-! ### What streams are asked to send -/

/-- A stream and the calls that are made to it. -/
inductive Source where
  | packets (s : Rtp.Sender) (calls : List Sending)
  | audio (s : Audio.AudioStream) (calls : List Bytes)
  | units (s : H264.NalSender) (calls : List (Rtp.Timestamp × H264.NalUnit))
  | video (s : H264.VideoStream) (calls : List H264.Feed)

namespace Source

def sender : Source → Rtp.Sender
  | .packets s _ => s
  | .audio s _ => s.rtp
  | .units s _ => s.rtp
  | .video s _ => s.nal.rtp

/-- What the calls leave of a link that nothing else writes to. -/
def alone : Source → Link → Link
  | .packets s calls, link => (leaves Rtp.Sender.perform calls (s, link)).2
  | .audio s calls, link => (leaves Audio.AudioStream.sendSamples calls (s, link)).2
  | .units s calls, link =>
    (leaves (fun (timestamp, unit) => H264.NalSender.send timestamp unit) calls (s, link)).2
  | .video s calls, link => (leaves H264.VideoStream.feed calls (s, link)).2

/-- The calls packet by packet. -/
def program : Source → Program Unit
  | .packets _ calls => (Program.all Program.packet calls ()).bind fun _ => .done ()
  | .audio s calls => (Program.all s.program calls s.nextSample).bind fun _ => .done ()
  | .units s calls => (Program.all s.program calls ()).bind fun _ => .done ()
  | .video s calls => (Program.all s.program calls s.timestamp).bind fun _ => .done ()

/-- The calls do on a link of their own what their packets do one by one. -/
theorem alone_eq (source : Source) (link : Link) :
    source.alone link = (source.program.run (source.sender, link)).2.2 := by
  cases source with
  | packets s calls =>
    rw [program, Program.run_bind]
    exact congrArg Prod.snd (Program.realizes_packet.leaves_all calls () s link)
  | audio s calls =>
    rw [program, Program.run_bind]
    exact congrArg Prod.snd (s.realizes_program.leaves_all calls s.nextSample s.rtp link)
  | units s calls =>
    rw [program, Program.run_bind]
    exact congrArg Prod.snd (s.realizes_program.leaves_all calls () s.rtp link)
  | video s calls =>
    rw [program, Program.run_bind]
    exact congrArg Prod.snd (s.realizes_program.leaves_all calls s.timestamp s.nal.rtp link)

end Source

open Outgoing (payloadsOn responses)

/-! ### The way of one stream -/

/-- A stream has put these packets on its channel, and has the rest of its packets to put there. -/
structure Follows (source : Source) (channel : UInt8) (messages : List Outgoing)
    (stream : Program Unit × Rtp.Sender) (sent : List Sending) : Prop where
  sender : stream.2 = source.sender.advance sent.length
  rest : sent ++ stream.1.carried stream.2 = source.program.carried source.sender
  payloads : payloadsOn channel messages = source.sender.rawPackets sent

namespace Follows

variable {source : Source} {channel : UInt8} {messages : List Outgoing}
  {stream : Program Unit × Rtp.Sender} {sent : List Sending} {rtp : Rtp.Sender} {x : Sending}
  {next : Except RtspError Nat → Program Unit}

theorem of_other (h : Follows source channel messages stream sent) {message : Outgoing}
    (hother : message.payloadOn? channel = none) :
    Follows source channel (messages ++ [message]) stream sent := by
  refine ⟨h.sender, h.rest, ?_⟩
  rw [payloadsOn, List.filterMap_append, List.filterMap_cons_none hother, List.filterMap_nil,
    List.append_nil]
  exact h.payloads

theorem carries (h : Follows source channel messages (.send x next, rtp) sent)
    (hok : (rtp.outcome x).isOk = true) :
    Follows source channel
      (messages ++ [.frame channel (rtp.packet x.timestamp x.marker x.head x.payload)])
      (next (rtp.outcome x), rtp.advance 1) (sent ++ [x]) := by
  have hsender : rtp = source.sender.advance sent.length := h.sender
  constructor
  case sender =>
    simp only [hsender, Rtp.Sender.advance_advance, List.length_append, List.length_singleton]
  case rest =>
    have hrest := h.rest
    simp only [Program.carried, if_pos hok] at hrest
    rw [List.append_assoc]
    exact hrest
  case payloads =>
    have hframe : payloadsOn channel
        [.frame channel (rtp.packet x.timestamp x.marker x.head x.payload)] =
          [rtp.packet x.timestamp x.marker x.head x.payload] := by
      simp [payloadsOn, Outgoing.payloadOn?]
    rw [payloadsOn, List.filterMap_append, Rtp.Sender.rawPackets_append, ← hsender]
    exact congrArg₂ (· ++ ·) h.payloads hframe

theorem fails (h : Follows source channel messages (.send x next, rtp) sent)
    (hfail : ¬(rtp.outcome x).isOk = true) :
    Follows source channel messages (next (rtp.outcome x), rtp) sent := by
  refine ⟨h.sender, ?_, h.payloads⟩
  have hrest := h.rest
  simp only [Program.carried, if_neg hfail] at hrest
  exact hrest

end Follows

/-! ### Schedules -/

namespace Shared

variable {ι : Type} [DecidableEq ι]

omit [DecidableEq ι] in
/-- No stream has begun. -/
def start (sources : ι → Source) (link : Link) : Shared ι where
  link := link
  streams i := ((sources i).program, (sources i).sender)

/-- What holds behind any turns: the messages are on the wire, among them the responses written,
and every stream has come somewhere. -/
structure Mixes (sources : ι → Source) (channel : ι → UInt8) (link : Link)
    (written : List Response) (state : Shared ι) (messages : List Outgoing) : Prop where
  wrote : link.connection.Wrote messages state.link.connection
  works : state.link.connection.behaviour.Reliable
  responses : responses messages = written
  streams : ∀ i, ∃ sent, Follows (sources i) (channel i) messages (state.streams i) sent

variable {sources : ι → Source} {channel : ι → UInt8} {link : Link} {written : List Response}
  {state : Shared ι} {messages : List Outgoing}

omit [DecidableEq ι] in
theorem mixes_start (hr : link.connection.behaviour.Reliable) :
    Mixes sources channel link [] (start sources link) [] where
  wrote := .refl _
  works := hr
  responses := rfl
  streams _ := ⟨[], (Rtp.Sender.advance_zero _).symm, rfl, rfl⟩

/-- A response leaves the streams as they were. -/
theorem Mixes.response (h : Mixes sources channel link written state messages) (r : Response) :
    Mixes sources channel link (written ++ [r]) (state.step (.response r))
      (messages ++ [.response r]) := by
  constructor
  case wrote => exact h.wrote.trans (.response h.works r)
  case works =>
    have hkeeps := state.link.connection.behaviour_write r.encode
    exact hkeeps.symm ▸ h.works
  case responses =>
    rw [Outgoing.responses, List.filterMap_append]
    exact congrArg (· ++ [r]) h.responses
  case streams =>
    intro i
    obtain ⟨sent, hfollows⟩ := h.streams i
    exact ⟨sent, hfollows.of_other rfl⟩

/-- A packet that goes out is one more frame on the channel of its stream; the other streams are
left as they were. -/
theorem Mixes.carries (hinj : Function.Injective channel)
    (h : Mixes sources channel link written state messages) {i : ι} {x : Sending}
    {next : Except RtspError Nat → Program Unit} {rtp : Rtp.Sender} {sent : List Sending}
    (hfollows : Follows (sources i) (channel i) messages (.send x next, rtp) sent)
    (hok : (rtp.outcome x).isOk = true) {after : Link}
    (hcarries : (Delivery.interleaved (channel i)).Carries
      (rtp.packet x.timestamp x.marker x.head x.payload) state.link after)
    (hkeeps : after.connection.behaviour = state.link.connection.behaviour) :
    Mixes sources channel link written
      { link := after,
        streams := Function.update state.streams i (next (rtp.outcome x), rtp.advance 1) }
      (messages ++ [.frame (channel i) (rtp.packet x.timestamp x.marker x.head x.payload)]) := by
  obtain ⟨⟨frame, hframe, htaken⟩, -⟩ := hcarries
  constructor
  case wrote => exact h.wrote.trans (.of_spelled hframe htaken)
  case works => exact hkeeps.symm ▸ h.works
  case responses =>
    rw [Outgoing.responses, List.filterMap_append]
    exact (List.append_nil _).trans h.responses
  case streams =>
    intro j
    simp only [Function.update_apply]
    split
    · rename_i hji
      exact ⟨sent ++ [x], hji ▸ hfollows.carries hok⟩
    · -- The frame is on another channel.
      rename_i hji
      obtain ⟨others, hothers⟩ := h.streams j
      exact ⟨others, hothers.of_other (if_neg fun hc => hji (hinj hc).symm)⟩

/-- A packet that fails leaves its stream with what comes next. -/
theorem Mixes.fails (h : Mixes sources channel link written state messages) {i : ι} {x : Sending}
    {next : Except RtspError Nat → Program Unit} {rtp : Rtp.Sender} {sent : List Sending}
    (hfollows : Follows (sources i) (channel i) messages (.send x next, rtp) sent)
    (hfail : ¬(rtp.outcome x).isOk = true) :
    Mixes sources channel link written
      { state with streams := Function.update state.streams i (next (rtp.outcome x), rtp) }
      messages := by
  refine ⟨h.wrote, h.works, h.responses, fun j => ?_⟩
  simp only [Function.update_apply]
  split
  · rename_i hji
    exact ⟨sent, hji ▸ hfollows.fails hfail⟩
  · exact h.streams j

/-- A turn of a stream puts a frame on the wire, unless the packet is too long for one or the
stream has come to its end. -/
theorem Mixes.packet (hinj : Function.Injective channel)
    (hd : ∀ i, (sources i).sender.delivery = .interleaved (channel i))
    (h : Mixes sources channel link written state messages) (i : ι) :
    ∃ more, Mixes sources channel link written (state.step (.packet i)) (messages ++ more) := by
  obtain ⟨sent, hfollows⟩ := h.streams i
  rcases hi : state.streams i with ⟨⟨⟨⟩⟩ | ⟨x, next⟩, rtp⟩
  · refine ⟨[], ?_⟩
    rw [step, hi, List.append_nil]
    exact h
  · rw [hi] at hfollows
    have hdelivery : rtp.delivery = .interleaved (channel i) := by
      rw [show rtp = _ from hfollows.sender]
      exact hd i
    obtain ⟨after, hperform, hkeeps, hcarries⟩ :=
      Rtp.Sender.perform_of_outcome hdelivery h.works x
    rw [step, hi]
    simp only [hperform]
    by_cases hok : (rtp.outcome x).isOk = true
    · rw [if_pos hok, hdelivery] at hcarries
      rw [if_pos hok]
      exact ⟨_, h.carries hinj hfollows hok hcarries hkeeps⟩
    · rw [if_neg hok] at hcarries
      subst hcarries
      rw [if_neg hok]
      refine ⟨[], ?_⟩
      rw [List.append_nil]
      exact h.fails hfollows hok

theorem Mixes.run (hinj : Function.Injective channel)
    (hd : ∀ i, (sources i).sender.delivery = .interleaved (channel i))
    (h : Mixes sources channel link written state messages) (schedule : List (Turn ι)) :
    ∃ more, Mixes sources channel link (written ++ schedule.filterMap Turn.response?)
      (state.run schedule) (messages ++ more) := by
  induction schedule generalizing state written messages with
  | nil => exact ⟨[], by simpa [Shared.run] using h⟩
  | cons turn schedule ih =>
    cases turn with
    | packet i =>
      obtain ⟨more, hstep⟩ := h.packet hinj hd i
      obtain ⟨others, hrun⟩ := ih hstep
      refine ⟨more ++ others, ?_⟩
      rw [← List.append_assoc]
      exact hrun
    | response r =>
      obtain ⟨others, hrun⟩ := ih (h.response r)
      refine ⟨[.response r] ++ others, ?_⟩
      rw [List.append_assoc] at hrun
      rw [← List.append_assoc]
      exact hrun

/-- For any streams on channels of their own and any responses whose texts stay on their lines,
and however the writes of single packets and responses follow one another: the wire is read as
messages again; those on one channel are packets with consecutive numbers, namely those that the
stream writes if it has the connection to itself, up to where it has come; and without the frames
there are left the responses in the order in which they were written. -/
theorem run_separates (hinj : Function.Injective channel)
    (hd : ∀ i, (sources i).sender.delivery = .interleaved (channel i))
    (hr : link.connection.behaviour.Reliable) (schedule : List (Turn ι))
    (hplain : ∀ r, .response r ∈ schedule → r.Plain) :
    let reached := (start sources link).run schedule
    ∃ wire messages, reached.link.connection.taken = link.connection.taken ++ wire ∧
      Outgoing.readAll? wire = some messages ∧
      responses messages = schedule.filterMap Turn.response? ∧
      ∀ i, ∃ packets ahead lonely,
        (payloadsOn (channel i) messages).mapM Packet.ofBytes? = some packets ∧
        packets.map (·.header.sequence) = (List.range packets.length).map
          (fun k => (sources i).sender.sequence + .ofNat k) ∧
        ((sources i).alone link).connection.taken = link.connection.taken ++ lonely ∧
        Outgoing.readAll? lonely = some
          ((payloadsOn (channel i) messages ++ ahead).map (.frame (channel i))) ∧
        (reached.Finished i → ahead = []) := by
  intro reached
  obtain ⟨messages, hmixes⟩ := (mixes_start hr).run hinj hd schedule
  rw [List.nil_append, List.nil_append] at hmixes
  have hresponses := hmixes.responses
  have hall : ∀ r, .response r ∈ messages → r.Plain := by
    intro r hmem
    have hwritten : r ∈ schedule.filterMap Turn.response? := by
      rw [← hresponses]
      exact List.mem_filterMap.2 ⟨_, hmem, rfl⟩
    obtain ⟨turn, hturn, heq⟩ := List.mem_filterMap.1 hwritten
    cases turn with
    | packet i => cases heq
    | response r' =>
      cases heq
      exact hplain r hturn
  obtain ⟨wire, hwire, hread⟩ := hmixes.wrote.exists_wire hall
  refine ⟨wire, messages, hwire, hread, hresponses, fun i => ?_⟩
  obtain ⟨sent, hfollows⟩ := hmixes.streams i
  have hlonely := Program.run_of_reliable (hd i) hr (sources i).program
  rw [← Source.alone_eq, hd i, ← hfollows.rest, Rtp.Sender.rawPackets_append,
    ← hfollows.payloads] at hlonely
  obtain ⟨⟨frames, hframes, htaken⟩, -⟩ := hlonely
  refine ⟨(sources i).sender.packets sent, _, frames.flatten, ?_, ?_, htaken,
    Outgoing.readAll?_of_spelled (List.forall₂_map_left_iff.2 hframes) (by simp), ?_⟩
  · rw [hfollows.payloads]
    exact (sources i).sender.mapM_rawPackets sent
  · rw [Rtp.Sender.map_sequence_packets, Rtp.Sender.length_packets]
  · intro hfinished
    rw [Program.carried_of_isDone hfinished]
    rfl

/-- A unit in three fragments and three samples in two packets, with a response after the first
packet of each. -/
theorem run_separates_two_streams :
    let nal : H264.NalSender :=
      { rtp :=
          { delivery := .interleaved 2, payloadType := 96, clockRate := 90000, ssrc := 7,
            sequence := 65535, payloadType_lt := by decide }
        maxUnitSize := 3
        headLength_lt := by decide }
    let audio : Audio.AudioStream :=
      { rtp :=
          { delivery := .interleaved 0, payloadType := 0, clockRate := 8000, ssrc := 8,
            sequence := 9, payloadType_lt := by decide }
        samplesPerPacket := 2 }
    let sources : Bool → Source := fun isVideo =>
      if isVideo then .units nal [(.raw 900, ⟨0x65, [1, 2, 3]⟩)] else .audio audio [[5, 6, 7]]
    let channel : Bool → UInt8 := fun isVideo => if isVideo then 2 else 0
    let schedule : List (Turn Bool) :=
      [.packet true, .packet false, .response .ok, .packet true, .packet false, .packet true]
    let reached := (start sources {}).run schedule
    Function.Injective channel ∧
      (∀ i, (sources i).sender.delivery = .interleaved (channel i)) ∧
      ({} : Link).connection.behaviour.Reliable ∧
      (∀ r, .response r ∈ schedule → r.Plain) ∧
      ∃ messages, Outgoing.readAll? reached.link.connection.taken = some messages ∧
        responses messages = [.ok] ∧
        ∀ i, Outgoing.readAll? ((sources i).alone {}).connection.taken =
          some ((payloadsOn (channel i) messages).map (.frame (channel i))) := by
  intro nal audio sources channel schedule reached
  have hinj : Function.Injective channel := by decide
  have hd : ∀ i, (sources i).sender.delivery = .interleaved (channel i) := by decide
  have hr : ({} : Link).connection.behaviour.Reliable := Behaviour.reliable_accepting
  have hplain : ∀ r, .response r ∈ schedule → r.Plain := by
    intro r hmem
    simp only [schedule, List.mem_cons, List.not_mem_nil, or_false, reduceCtorEq, false_or,
      Turn.response.injEq] at hmem
    rw [hmem]
    decide
  have hfinished : ∀ i, (reached.streams i).1.isDone = true := by decide +kernel
  obtain ⟨wire, messages, hwire, hread, hresponses, hstreams⟩ :=
    run_separates hinj hd hr schedule hplain
  have htaken : reached.link.connection.taken = wire := hwire
  refine ⟨hinj, hd, hr, hplain, messages, htaken ▸ hread, hresponses, fun i => ?_⟩
  obtain ⟨packets, ahead, lonely, -, -, hlonely, hsame, hahead⟩ := hstreams i
  rw [hahead (hfinished i), List.append_nil] at hsame
  have halone : ((sources i).alone {}).connection.taken = lonely := hlonely
  rw [halone, hsame]

end Shared

end RealTimeStreaming
