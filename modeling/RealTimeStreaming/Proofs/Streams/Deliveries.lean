import RealTimeStreaming.Proofs.H264.Joining
import RealTimeStreaming.Proofs.Streams.Sharing

/-! One stream over two deliveries. What a stream sends does not depend on how its packets are
delivered, as long as all of them are: frames on a connection hold what the datagrams of the same
calls hold, and a call counts four more bytes for each of its frames. -/

namespace RealTimeStreaming

/-- Frames of one channel are read back as what they were made of. -/
theorem Frame.readAll_flatten {channel : UInt8} {payloads frames : List Bytes}
    (h : List.Forall₂ (fun payload frame =>
      encode channel payload = .ok frame) payloads frames) :
    readAll frames.flatten = (payloads.map (channel, ·), []) := by
  induction h with
  | nil => exact readAll_nil
  | cons hframe _ ih =>
    rw [List.flatten_cons, readAll_append (readAll_encode hframe), ih]
    rfl

namespace Rtp

namespace Sender

/-- The stream with another delivery. -/
def via (d : Delivery) (s : Sender) : Sender :=
  { s with delivery := d }

theorem via_advance (d : Delivery) (s : Sender) (n : Nat) :
    (s.advance n).via d = (s.via d).advance n :=
  rfl

theorem rawPackets_via (d : Delivery) (s : Sender) (sendings : List Sending) :
    (s.via d).rawPackets sendings = s.rawPackets sendings := by
  induction sendings generalizing s with
  | nil => rfl
  | cons x sendings ih =>
    rw [rawPackets, ← via_advance, ih]
    rfl

theorem length_rawPackets (s : Sender) (sendings : List Sending) :
    (s.rawPackets sendings).length = sendings.length := by
  induction sendings generalizing s with
  | nil => rfl
  | cons x sendings ih => rw [rawPackets, List.length_cons, ih, List.length_cons]

end Sender

/-! ### Programs whose packets all go out -/

namespace Program

variable {α σ S item : Type}

/-- What a program sends and gives if every packet goes out, with the given counts. -/
def follow (count : Sending → Nat) : Program α → List Sending × α
  | .done result => ([], result)
  | .send x next =>
    let rest := (next (.ok (count x))).follow count
    (x :: rest.1, rest.2)

theorem follow_bind {β : Type} (count : Sending → Nat) (p : Program α) (f : α → Program β) :
    (p.bind f).follow count =
      let first := p.follow count
      let rest := (f first.2).follow count
      (first.1 ++ rest.1, rest.2) := by
  induction p with
  | done result => rfl
  | send x next ih =>
    rw [bind, follow, ih]
    rfl

/-- Over a steady link a program does what its packets are known to do. -/
theorem run_of_steady {s : Sender} {link : Link} {limit : Nat} (h : s.delivery.Steady limit link)
    {p : Program α} {sendings : List Sending} {result : α}
    (hp : p.follow (fun x => s.delivery.overhead + x.size) = (sendings, result))
    (hfits : ∀ x ∈ sendings, x.size ≤ limit) :
    ∃ after, p.run (s, link) = (result, s.advance sendings.length, after) ∧
      s.delivery.CarriesAll (s.rawPackets sendings) link after ∧
      s.delivery.Steady limit after := by
  induction p generalizing s link sendings with
  | done result =>
    cases hp
    refine ⟨link, ?_, Delivery.carriesAll_nil _ _, h⟩
    rw [List.length_nil, Sender.advance_zero]
    rfl
  | send x next ih =>
    cases hp
    rw [List.forall_mem_cons] at hfits
    obtain ⟨mid, hperform, hcarries, hmid⟩ := Sender.perform_of_steady h hfits.1
    obtain ⟨after, hrun, hall, hafter⟩ := ih _ (s := s.advance 1) hmid rfl hfits.2
    refine ⟨after, ?_, Delivery.carriesAll_cons hcarries hall, hafter⟩
    rw [run, hperform]
    simp only
    rw [hrun, Sender.advance_advance, List.length_cons, Nat.add_comm 1]
    rfl

/-- If all packets go out, then the call sends these, gives the total of their counts, and leaves
the stream in this state. -/
def Totals (p : Program (Except RtspError Nat × σ)) (sendings : List Sending) (t : σ) : Prop :=
  ∀ count : Sending → Nat, p.follow count = (sendings, .ok (sendings.map count).sum, t)

/-- If all packets go out, then the call says so, and it asks for none that is too long. -/
def Orderly (limit : Nat) (p : Program (Except RtspError Nat × σ)) : Prop :=
  ∃ sendings t, p.Totals sendings t ∧ ∀ x ∈ sendings, x.size ≤ limit

theorem orderly_packet {limit : Nat} {x : Sending} (h : x.size ≤ limit) (t : Unit) :
    (packet x t).Orderly limit :=
  ⟨[x], (), fun _ => rfl, List.forall_mem_singleton.2 h⟩

theorem orderly_each {limit : Nat} {f : item → σ → Program (Except RtspError Nat × σ)}
    {items : List item} (h : ∀ x ∈ items, ∀ t, (f x t).Orderly limit) (t : σ) :
    (each f items t).Orderly limit := by
  induction items generalizing t with
  | nil => exact ⟨[], t, fun _ => rfl, by simp⟩
  | cons x items ih =>
    rw [List.forall_mem_cons] at h
    obtain ⟨front, mid, hfront, hfits⟩ := h.1 t
    obtain ⟨rest, last, hrest, hfits'⟩ := ih h.2 mid
    refine ⟨front ++ rest, last, fun count => ?_, List.forall_mem_append.2 ⟨hfits, hfits'⟩⟩
    rw [each, follow_bind, hfront count]
    simp only
    rw [follow_bind, hrest count]
    simp only [follow, Except.map, List.append_nil, List.map_append, List.sum_append]

/-- What the end of a call makes of its state changes nothing else. -/
theorem Orderly.bind_done {limit : Nat} {p : Program (Except RtspError Nat × S)}
    (h : p.Orderly limit) (t : σ) :
    (p.bind fun (result, _) => .done (result, t)).Orderly limit := by
  obtain ⟨sendings, last, htotals, hfits⟩ := h
  refine ⟨sendings, t, fun count => ?_, hfits⟩
  rw [follow_bind, htotals count]
  simp only [follow, List.append_nil]

namespace Realizes

variable {view : σ → Sender → S} {f : item → σ → Program (Except RtspError Nat × σ)}
  {send : item → S × Link → Except RtspError Nat × S × Link} {d : Delivery} {limit : Nat}

theorem send_of_totals (h : Realizes view f send) {x : item} {t t' : σ} {sendings : List Sending}
    (htotals : (f x t).Totals sendings t') (hfits : ∀ x ∈ sendings, x.size ≤ limit) (rtp : Sender)
    {link : Link} (hsteady : d.Steady limit link) :
    ∃ after, send x (view t (rtp.via d), link) =
        (.ok (d.overhead * sendings.length + (sendings.map Sending.size).sum),
          view t' ((rtp.advance sendings.length).via d), after) ∧
      d.CarriesAll (rtp.rawPackets sendings) link after ∧ d.Steady limit after := by
  obtain ⟨after, hrun, hcarries, hafter⟩ := run_of_steady (s := rtp.via d) hsteady
    (htotals fun x => (rtp.via d).delivery.overhead + x.size) hfits
  rw [Sender.rawPackets_via] at hcarries
  refine ⟨after, ?_, hcarries, hafter⟩
  rw [h x t (rtp.via d) link, hrun, List.sum_map_add, List.map_const', List.sum_replicate_nat,
    Nat.mul_comm]
  rfl

end Realizes

end Program

/-! ### Runs of calls -/

/-- The call as it shows on the link. -/
def Call.onLink {α S : Type} (call : Call α (S × Link)) : Call Unit Link where
  item := ()
  result := call.result
  before := call.before.2
  after := call.after.2

/-- Two calls put the same packets on the wire, one as frames on the channel and one as datagrams,
and the first counts four more bytes for each packet. -/
def Twins (channel : UInt8) (destination : Endpoint) (framed plain : Call Unit Link) : Prop :=
  ∃ packets n, (Delivery.interleaved channel).CarriesAll packets framed.before framed.after ∧
    (Delivery.datagrams destination).CarriesAll packets plain.before plain.after ∧
    plain.result = .ok n ∧ framed.result = .ok (n + 4 * packets.length)

theorem Program.Realizes.exists_twins {σ S item : Type} {view : σ → Sender → S}
    {f : item → σ → Program (Except RtspError Nat × σ)}
    {send : item → S × Link → Except RtspError Nat × S × Link} {limit : Nat}
    (h : Realizes view f send) {calls : List item}
    (horderly : ∀ x ∈ calls, ∀ t, (f x t).Orderly limit) (t : σ) (rtp : Sender)
    {channel : UInt8} {destination : Endpoint} {framed plain : Link}
    (hframed : (Delivery.interleaved channel).Steady limit framed)
    (hplain : (Delivery.datagrams destination).Steady limit plain) :
    let onFrames := (view t (rtp.via (.interleaved channel)), framed)
    let onDatagrams := (view t (rtp.via (.datagrams destination)), plain)
    ∃ (packets : List Bytes) (t' : σ) (rtp' : Sender),
      (Delivery.interleaved channel).CarriesAll packets framed (leaves send calls onFrames).2 ∧
      (Delivery.datagrams destination).CarriesAll packets plain
        (leaves send calls onDatagrams).2 ∧
      (leaves send calls onFrames).1 = view t' (rtp'.via (.interleaved channel)) ∧
      (leaves send calls onDatagrams).1 = view t' (rtp'.via (.datagrams destination)) ∧
      List.Forall₂ (Twins channel destination) ((history send calls onFrames).map Call.onLink)
        ((history send calls onDatagrams).map Call.onLink) := by
  induction calls generalizing t rtp framed plain with
  | nil =>
    exact ⟨[], t, rtp, Delivery.carriesAll_nil _ _, Delivery.carriesAll_nil _ _, rfl, rfl, .nil⟩
  | cons x calls ih =>
    rw [List.forall_mem_cons] at horderly
    obtain ⟨sendings, mid, htotals, hfits⟩ := horderly.1 t
    obtain ⟨framed', hsend, hcarries, hsteady⟩ := h.send_of_totals htotals hfits rtp hframed
    obtain ⟨plain', hsend', hcarries', hsteady'⟩ := h.send_of_totals htotals hfits rtp hplain
    obtain ⟨packets, t', rtp', hall, hall', hlast, hlast', hcalls⟩ :=
      ih horderly.2 mid (rtp.advance sendings.length) hsteady hsteady'
    intro onFrames onDatagrams
    refine ⟨rtp.rawPackets sendings ++ packets, t', rtp', ?_, ?_, ?_, ?_, ?_⟩
    · rw [leaves_cons, hsend]
      exact Delivery.carriesAll_append hcarries hall
    · rw [leaves_cons, hsend']
      exact Delivery.carriesAll_append hcarries' hall'
    · rw [leaves_cons, hsend]
      exact hlast
    · rw [leaves_cons, hsend']
      exact hlast'
    · simp only [history, hsend, hsend', onFrames, onDatagrams, List.map_cons]
      refine .cons ⟨_, _, hcarries, hcarries', rfl, ?_⟩ hcalls
      simp only [Call.onLink, Delivery.overhead, Frame.headerLength, Sender.length_rawPackets,
        Except.ok.injEq]
      omega

end Rtp

/-! ### The streams -/

open Rtp (Program)

theorem Audio.AudioStream.orderly_program (s : AudioStream) {samples : Bytes} {limit : Nat}
    (h : ∀ piece ∈ slices s.samplesPerPacket samples, Rtp.Header.length + piece.length ≤ limit)
    (nextSample : UInt32) : (s.program samples nextSample).Orderly limit := by
  apply Program.orderly_each
  intro piece hpiece nextSample
  let x : Rtp.Sending :=
    { timestamp := .raw nextSample, marker := false, head := [], payload := piece }
  have hx : x.size ≤ limit := h piece hpiece
  exact ⟨[x], _, fun _ => rfl, List.forall_mem_singleton.2 hx⟩

theorem H264.NalSender.orderly_program (s : NalSender) {unit : NalUnit} {limit : Nat}
    (h : Fits s.maxUnitSize limit unit) (timestamp : Rtp.Timestamp) :
    (s.program (timestamp, unit) ()).Orderly limit := by
  have hall : ∀ x ∈ sendings s.maxUnitSize timestamp unit, x.size ≤ limit :=
    List.forall_mem_map.2 h
  exact Program.orderly_each (fun x hx => Program.orderly_packet (hall x hx)) ()

theorem H264.VideoStream.orderly_unitProgram (s : VideoStream) {unit : NalUnit} {limit : Nat}
    (h : Fits s.nal.maxUnitSize limit unit) (timestamp : UInt32) :
    (s.unitProgram unit timestamp).Orderly limit :=
  (s.nal.orderly_program h _).bind_done _

theorem H264.VideoStream.orderly_program (s : VideoStream) {given : Feed} {limit : Nat}
    (h : ∀ unit ∈ given.units, Fits s.nal.maxUnitSize limit unit) (timestamp : UInt32) :
    (s.program given timestamp).Orderly limit := by
  cases given with
  | single unit => exact s.orderly_unitProgram (h unit List.mem_cons_self) timestamp
  | stream data =>
    exact Program.orderly_each (fun unit hunit => s.orderly_unitProgram (h unit hunit)) _

open DatagramSocket (maxPayload)

namespace Source

/-- The same stream and calls with another delivery. -/
def via (d : Delivery) : Source → Source
  | .packets s calls => .packets (s.via d) calls
  | .audio s calls => .audio { s with rtp := s.rtp.via d } calls
  | .units s calls => .units { s with rtp := s.rtp.via d } calls
  | .video s calls => .video { s with nal := { s.nal with rtp := s.nal.rtp.via d } } calls

/-- No packet of the calls is longer than the limit. -/
def Fits (limit : Nat) : Source → Prop
  | .packets _ calls => ∀ x ∈ calls, x.size ≤ limit
  | .audio s calls => ∀ samples ∈ calls, ∀ piece ∈ slices s.samplesPerPacket samples,
    Rtp.Header.length + piece.length ≤ limit
  | .units s calls => ∀ call ∈ calls, H264.Fits s.maxUnitSize limit call.2
  | .video s calls => ∀ given ∈ calls, ∀ unit ∈ given.units, H264.Fits s.nal.maxUnitSize limit unit

/-- What the calls do to a link, one by one. -/
def trace : Source → Link → List (Rtp.Call Unit Link)
  | .packets s calls, link => (Rtp.history Rtp.Sender.perform calls (s, link)).map .onLink
  | .audio s calls, link => (Rtp.history Audio.AudioStream.sendSamples calls (s, link)).map .onLink
  | .units s calls, link =>
    (Rtp.history (fun (timestamp, unit) => H264.NalSender.send timestamp unit) calls
      (s, link)).map .onLink
  | .video s calls, link => (Rtp.history H264.VideoStream.feed calls (s, link)).map .onLink

/-- The stream that the calls leave, with no more calls to come. -/
def finished : Source → Link → Source
  | .packets s calls, link => .packets (Rtp.leaves Rtp.Sender.perform calls (s, link)).1 []
  | .audio s calls, link => .audio (Rtp.leaves Audio.AudioStream.sendSamples calls (s, link)).1 []
  | .units s calls, link =>
    .units (Rtp.leaves (fun (timestamp, unit) => H264.NalSender.send timestamp unit) calls
      (s, link)).1 []
  | .video s calls, link => .video (Rtp.leaves H264.VideoStream.feed calls (s, link)).1 []

variable {channel : UInt8} {destination : Endpoint} {framed plain : Link} {limit : Nat}

theorem exists_twins (source : Source) (hfits : source.Fits limit)
    (hframed : (Delivery.interleaved channel).Steady limit framed)
    (hplain : (Delivery.datagrams destination).Steady limit plain) :
    let onFrames := source.via (.interleaved channel)
    let onDatagrams := source.via (.datagrams destination)
    ∃ packets,
      (Delivery.interleaved channel).CarriesAll packets framed (onFrames.alone framed) ∧
      (Delivery.datagrams destination).CarriesAll packets plain (onDatagrams.alone plain) ∧
      (onFrames.finished framed).via (.datagrams destination) = onDatagrams.finished plain ∧
      List.Forall₂ (Rtp.Twins channel destination) (onFrames.trace framed)
        (onDatagrams.trace plain) := by
  cases source with
  | packets s calls =>
    obtain ⟨packets, t, rtp, hall, hall', hlast, hlast', hcalls⟩ :=
      Program.realizes_packet.exists_twins
        (fun x hx t => Program.orderly_packet (hfits x hx) t) () s hframed hplain
    exact ⟨packets, hall, hall', (congrArg (fun t' => via _ (Source.packets t' [])) hlast).trans
      (congrArg (fun t' => Source.packets t' []) hlast'.symm), hcalls⟩
  | audio s calls =>
    obtain ⟨packets, t, rtp, hall, hall', hlast, hlast', hcalls⟩ :=
      s.realizes_program.exists_twins (fun x hx t => s.orderly_program (hfits x hx) t)
        s.nextSample s.rtp hframed hplain
    exact ⟨packets, hall, hall', (congrArg (fun t' => via _ (Source.audio t' [])) hlast).trans
      (congrArg (fun t' => Source.audio t' []) hlast'.symm), hcalls⟩
  | units s calls =>
    obtain ⟨packets, t, rtp, hall, hall', hlast, hlast', hcalls⟩ :=
      s.realizes_program.exists_twins (fun x hx _ => s.orderly_program (hfits x hx) x.1)
        () s.rtp hframed hplain
    exact ⟨packets, hall, hall', (congrArg (fun t' => via _ (Source.units t' [])) hlast).trans
      (congrArg (fun t' => Source.units t' []) hlast'.symm), hcalls⟩
  | video s calls =>
    obtain ⟨packets, t, rtp, hall, hall', hlast, hlast', hcalls⟩ :=
      s.realizes_program.exists_twins (fun x hx t => s.orderly_program (hfits x hx) t)
        s.timestamp s.nal.rtp hframed hplain
    exact ⟨packets, hall, hall', (congrArg (fun t' => via _ (Source.video t' [])) hlast).trans
      (congrArg (fun t' => Source.video t' []) hlast'.symm), hcalls⟩

/-- For a stream of any kind, any calls to it whose packets are no longer than a datagram can be,
any channel and any destination, over links that let such packets through: the frames that the one
run adds to its connection are all on the channel, and their payloads are the datagrams that the
other run sends; both runs leave the stream in the same state; and each call succeeds in both, and
counts four more bytes for each of its packets where these are frames. -/
theorem frames_carry_datagrams (source : Source) (channel : UInt8) (destination : Endpoint)
    {framed plain : Link} (hframed : (Delivery.interleaved channel).Steady maxPayload framed)
    (hplain : (Delivery.datagrams destination).Steady maxPayload plain)
    (hfits : source.Fits maxPayload) :
    let onFrames := source.via (.interleaved channel)
    let onDatagrams := source.via (.datagrams destination)
    (∃ (packets : List Bytes) (wire : Bytes),
      (onDatagrams.alone plain).datagrams.sent.toList =
        plain.datagrams.sent.toList ++ packets.map (destination, ·) ∧
      (onDatagrams.alone plain).connection = plain.connection ∧
      (onFrames.alone framed).connection.taken = framed.connection.taken ++ wire ∧
      Frame.readAll wire = (packets.map (channel, ·), []) ∧
      (onFrames.alone framed).datagrams = framed.datagrams) ∧
    (onFrames.finished framed).via (.datagrams destination) = onDatagrams.finished plain ∧
    List.Forall₂ (Rtp.Twins channel destination) (onFrames.trace framed)
      (onDatagrams.trace plain) := by
  obtain ⟨packets, hall, hall', hlast, hcalls⟩ := source.exists_twins hfits hframed hplain
  obtain ⟨⟨frames, hframes, htaken⟩, hkeeps⟩ := hall
  obtain ⟨hsent, hkeeps'⟩ := hall'
  exact ⟨⟨packets, frames.flatten, hsent, hkeeps', htaken, Frame.readAll_flatten hframes, hkeeps⟩,
    hlast, hcalls⟩

/-- A picture in three fragments and one in a single packet, in one feed and in two. -/
theorem frames_carry_datagrams_two_pictures :
    let destination : Endpoint := { host := .v4 127 0 0 1, port := 9000 }
    let stream : H264.VideoStream :=
      { nal :=
          { rtp :=
              { delivery := .datagrams destination, payloadType := 96, clockRate := 90000,
                ssrc := 7, sequence := 65534, payloadType_lt := by decide }
            maxUnitSize := 3
            headLength_lt := by decide }
        frameStep := 3600 }
    let source : Source :=
      .video stream [.stream [0, 0, 1, 0x65, 1, 2, 3, 0, 0, 1, 0x41, 4], .single ⟨0x41, [5]⟩]
    let plain : Link := { datagrams := .connected }
    (Delivery.interleaved 2).Steady maxPayload {} ∧
    (Delivery.datagrams destination).Steady maxPayload plain ∧
    source.Fits maxPayload ∧
    Frame.readAll ((source.via (.interleaved 2)).alone {}).connection.taken =
      ((source.alone plain).datagrams.sent.toList.map fun sent => (2, sent.2), []) ∧
    (source.trace plain).map Rtp.Call.result = [.ok 59, .ok 14] ∧
    ((source.via (.interleaved 2)).trace {}).map Rtp.Call.result = [.ok 75, .ok 18] := by
  intro destination stream source plain
  have hframed : (Delivery.interleaved 2).Steady maxPayload {} :=
    Delivery.steady_interleaved Behaviour.reliable_accepting (by decide) 2
  have hplain : (Delivery.datagrams destination).Steady maxPayload plain :=
    Delivery.steady_datagrams fun _ _ hlength => if_neg (Nat.not_lt_of_ge hlength)
  have hfits : source.Fits maxPayload := by
    have hall : ∀ given ∈ [H264.Feed.stream [0, 0, 1, 0x65, 1, 2, 3, 0, 0, 1, 0x41, 4],
        .single ⟨0x41, [5]⟩], ∀ unit ∈ given.units, H264.Fits 3 maxPayload unit := by
      decide +kernel
    exact hall
  refine ⟨hframed, hplain, hfits, ?_, by decide +kernel, by decide +kernel⟩
  obtain ⟨⟨packets, wire, hsent, -, htaken, hread, -⟩, -, -⟩ :=
    source.frames_carry_datagrams 2 destination hframed hplain hfits
  have hwire : ((source.via (.interleaved 2)).alone {}).connection.taken = wire := htaken
  have hdatagrams :
      (source.alone plain).datagrams.sent.toList = packets.map (destination, ·) := hsent
  rw [hwire, hdatagrams, hread, List.map_map]
  rfl

end Source

end RealTimeStreaming
