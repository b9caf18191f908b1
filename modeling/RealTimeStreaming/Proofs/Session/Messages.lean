import RealTimeStreaming.Proofs.Request.Acceptance
import RealTimeStreaming.Proofs.Session.Cuts
import RealTimeStreaming.Session.Message

/-! A stream of whole messages. A connection that is sent requests and frames one after the
other dispatches the requests in their order, each as a parser of its own would have read
it, and passes over the frames, whatever they carry. It is then as it was at the start. -/

namespace RealTimeStreaming

/-! ### Dispatching requests in a row -/

namespace Controller

variable {γ : Type}

/-- The hook calls that requests in a row make. -/
def callsAll (controller : Controller γ) (peer : Endpoint) : List Request → γ × Link → List Call
  | [], _ => []
  | r :: rest, (s, link) =>
    let (_, t, x) := controller.dispatch r s { peer, cseq := r.cseq, link }
    controller.calls r s { peer, cseq := r.cseq, link } ++
      controller.callsAll peer rest (t, x.link)

theorem dispatchAll_append (controller : Controller γ) (peer : Endpoint)
    (requests more : List Request) (served : γ × Link) :
    controller.dispatchAll peer (requests ++ more) served =
      controller.dispatchAll peer more (controller.dispatchAll peer requests served) := by
  induction requests generalizing served with
  | nil => rfl
  | cons r rest ih => exact ih _

/-- Noting the calls changes nothing else. -/
theorem dispatchAll_traced (controller : Controller γ) (peer : Endpoint) (requests : List Request)
    (s : γ) (log : List Call) (link : Link) :
    controller.traced.dispatchAll peer requests ((s, log), link) =
      (((controller.dispatchAll peer requests (s, link)).1,
        log ++ controller.callsAll peer requests (s, link)),
        (controller.dispatchAll peer requests (s, link)).2) := by
  induction requests generalizing s log link with
  | nil => simp [dispatchAll, callsAll]
  | cons r rest ih => simp only [dispatchAll, callsAll, dispatch_traced, ih, List.append_assoc]

/-- Each request is answered once, in order. -/
theorem filterMap_answered?_callsAll (controller : Controller γ) (peer : Endpoint)
    (requests : List Request) (served : γ × Link) :
    (controller.callsAll peer requests served).filterMap Call.answered? = requests := by
  induction requests generalizing served with
  | nil => rfl
  | cons r rest ih =>
    rw [callsAll, List.filterMap_append, filterMap_answered?_calls, ih, List.singleton_append]

end Controller

/-! ### The start of a message -/

theorem Method.Names.marker_notMem {token : Bytes} {m : Method} (h : Names token m) :
    Frame.marker ∉ token := by
  cases h with
  | registered hm =>
    revert m
    decide
  | extension hne hc =>
    intro hm
    exact absurd (hc _ hm) (by decide)

/-- What starts with a method does not start like a frame. -/
theorem Method.Names.starts_eq_false {lead token : Bytes} {m : Method} (h : Names token m)
    (hlead : ∀ b ∈ lead, Octet.isSeparator b) (rest : Bytes) :
    Frame.starts (lead ++ token ++ rest) = false := by
  have hmarker : Frame.marker ∉ lead ++ token := by
    intro hm
    rcases List.mem_append.1 hm with hm | hm
    · exact absurd (hlead _ hm) (by decide)
    · exact h.marker_notMem hm
  have hne : lead ++ token ≠ [] := by
    intro hnil
    exact h.ne_nil (List.append_eq_nil_iff.1 hnil).2
  obtain ⟨b, tail, hb⟩ := List.exists_cons_of_ne_nil hne
  rw [hb] at hmarker ⊢
  simp only [Frame.starts, List.cons_append, List.head?_cons, beq_eq_false_iff_ne, ne_eq,
    Option.some.injEq]
  rintro rfl
  exact hmarker List.mem_cons_self

namespace Message

variable {config : ServerConfig}

/-- A text that is one whole request is well formed from its first byte to its last. -/
theorem exists_text {text : Bytes}
    (whole : (({ limits := config.limits } : Parser).parse (.blank config.headerCapacity)
      text).1.result = .ok ⟨text.length, true⟩) :
    ∃ (t : RequestText) (fields : List Header), t.bytes = text ∧
      t.Denotes config.limits config.headerCapacity fields
        (({ limits := config.limits } : Parser).parse (.blank config.headerCapacity) text).2 := by
  obtain ⟨hdone, hoffset⟩ := Parser.result_eq_complete_iff.1 whole
  have hcomp : ({ limits := config.limits } : Parser).Completes (.blank config.headerCapacity)
      text text.length _ := ⟨rfl, hdone, by rw [Nat.zero_add]; exact hoffset⟩
  obtain ⟨t, fields, ht, hlength, hdenotes⟩ := (Parser.completes_method_iff rfl).1 hcomp
  exact ⟨t, fields, ht.eq_of_length hlength, hdenotes⟩

/-- A well-formed text is one whole request, and a new parser reads from it what it says. -/
theorem whole_of_denotes {t : RequestText} {fields : List Header} {r : Request}
    (h : t.Denotes config.limits config.headerCapacity fields r) :
    let alone := ({ limits := config.limits } : Parser).parse (.blank config.headerCapacity) t.bytes
    alone.2 = r ∧ alone.1.result = .ok ⟨t.bytes.length, true⟩ := by
  obtain ⟨hr, hdone, hoffset⟩ : ({ limits := config.limits } : Parser).Completes
      (.blank config.headerCapacity) t.bytes t.bytes.length r :=
    (Parser.completes_method_iff rfl).2 ⟨t, fields, List.prefix_rfl, rfl, h⟩
  rw [Nat.zero_add] at hoffset
  exact ⟨hr, Parser.result_eq_complete_iff.2 ⟨hdone, hoffset⟩⟩

/-- What the parser of a connection makes of the request at the start of the buffer. -/
theorem parse_request {text : Bytes} {r : Request}
    (whole : (({ limits := config.limits } : Parser).parse (.blank config.headerCapacity)
      text).1.result = .ok ⟨text.length, true⟩)
    (hr : r.headers.capacity = config.headerCapacity) (rest : Bytes) :
    let p : Parser := { limits := config.limits }
    let alone := p.parse (.blank config.headerCapacity) text
    p.parse r (text ++ rest) = alone ∧ alone.1.stage = .done ∧ alone.1.offset = text.length ∧
      alone.2.headers.capacity = config.headerCapacity ∧ Frame.starts (text ++ rest) = false := by
  intro p alone
  obtain ⟨hdone, hoffset⟩ := Parser.result_eq_complete_iff.1 whole
  have hparse : p.parse r (text ++ rest) = alone := by
    have hsame : p.parse r text = alone := by rw [Parser.parse_eq_of_method rfl, hr]
    rw [Parser.parse_append_of_done (Nat.zero_le _) (by rw [hsame]; exact hdone), hsame]
  obtain ⟨t, fields, ht, hdenotes⟩ := exists_text whole
  refine ⟨hparse, hdone, hoffset, ?_, ?_⟩
  · rw [hdenotes.rest.rest.carries.headers_eq]
  · rw [← ht, RequestText.bytes, List.append_assoc]
    exact hdenotes.method.starts_eq_false hdenotes.lead _

end Message

namespace Connection

variable {γ : Type} {config : ServerConfig} {c : Connection γ}

/-- A connection at the start of a message. -/
structure AtStart (config : ServerConfig) (c : Connection γ) : Prop where
  parser : c.parser = { limits := config.limits }
  capacity : c.request.headers.capacity = config.headerCapacity
  closed : c.closed = none

/-- A connection at the start of a message, with a sink that never fails. -/
structure Ready (config : ServerConfig) (c : Connection γ) : Prop extends AtStart config c where
  reliable : c.link.connection.behaviour.Reliable

theorem turn_of_whole_frame (controller : Controller γ) (hc : c.AtStart config)
    {channel high low : UInt8} {payload rest : Bytes}
    (whole : payload.length = high.toNat * 256 + low.toNat)
    (hb : c.buffer = Frame.marker :: channel :: high :: low :: payload ++ rest) :
    c.turn controller = .again { c with buffer := rest } := by
  have hlength : ¬ c.buffer.length < Frame.headerLength + payload.length := by
    rw [hb]
    simp [Frame.headerLength]
    omega
  have hf : c.front = .frame (Frame.headerLength + payload.length) := by
    have hstart : c.parser.offset = 0 ∧ Frame.starts c.buffer := by
      rw [hc.parser, hb]
      exact ⟨rfl, rfl⟩
    have hheader : Frame.readHeader? c.buffer = some (channel, payload.length) := by
      rw [hb, whole]
      rfl
    rw [front, if_pos hstart, hheader]
    exact if_neg hlength
  have hdrop : c.buffer.drop (Frame.headerLength + payload.length) = rest := by
    rw [hb]
    simp [Frame.headerLength, Nat.add_comm 4]
  rw [turn_of_frame hf, hdrop]

theorem turn_of_whole_request (controller : Controller γ) (hc : c.AtStart config)
    {text rest : Bytes}
    (whole : (({ limits := config.limits } : Parser).parse (.blank config.headerCapacity)
      text).1.result = .ok ⟨text.length, true⟩)
    (hb : c.buffer = text ++ rest) :
    let r := (({ limits := config.limits } : Parser).parse (.blank config.headerCapacity) text).2
    ∃ d, (c.turn controller = if d.closed.isSome then .rest d else .again d) ∧
      d.parser = { limits := config.limits } ∧
      d.request.headers.capacity = config.headerCapacity ∧ d.buffer = rest ∧ d.peer = c.peer ∧
      (d.controllerState, d.link, d.closed) =
        controller.serve c.peer r c.controllerState c.link := by
  intro r
  obtain ⟨hparse, hdone, hoffset, hcapacity, hstarts⟩ :=
    Message.parse_request whole hc.capacity rest
  have hf : c.front = .request := by
    rw [front_eq_request_iff, hb, hstarts]
    simp
  have hread : c.read =
      { c with
        parser := (({ limits := config.limits } : Parser).parse (.blank config.headerCapacity)
          text).1
        request := r } := by
    rw [read, hb, hc.parser, hparse]
  have hlimits : c.read.parser.limits = config.limits := by
    rw [hread]
    exact Parser.limits_run _ _ _
  have hturn : c.turn controller = _ := turn_of_done hf (by rw [hread]; exact hdone)
  refine ⟨c.read.answer controller, hturn, ?_, ?_, ?_, rfl, ?_⟩
  · rw [parser_answer, Parser.reset, hlimits]
  · rw [hread]
    exact hcapacity
  · rw [buffer_answer, hread, hoffset, hb, List.drop_left]
  · rw [hread]
    simp only [answer, Controller.serve]
    rcases controller.dispatch r c.controllerState
      { peer := c.peer, cseq := r.cseq, link := c.link } with ⟨outcome | outcome, state, x⟩ <;> rfl

theorem turn_of_whole_request_of_ready (controller : Controller γ) (hc : c.Ready config)
    {text rest : Bytes}
    (whole : (({ limits := config.limits } : Parser).parse (.blank config.headerCapacity)
      text).1.result = .ok ⟨text.length, true⟩)
    (hb : c.buffer = text ++ rest) :
    let r := (({ limits := config.limits } : Parser).parse (.blank config.headerCapacity) text).2
    ∃ d, c.turn controller = .again d ∧ d.Ready config ∧ d.buffer = rest ∧ d.peer = c.peer ∧
      (d.controllerState, d.link) =
        controller.dispatchAll c.peer [r] (c.controllerState, c.link) := by
  intro r
  obtain ⟨d, hturn, hparser, hcapacity, hbuffer, hpeer, hserved⟩ :=
    turn_of_whole_request controller hc.toAtStart whole hb
  have hsound : Exchange.Sound { peer := c.peer, cseq := r.cseq, link := c.link } :=
    ⟨hc.reliable, by simp⟩
  obtain ⟨⟨n, hok⟩, hreliable⟩ := controller.dispatch_of_sound r c.controllerState hsound
  rcases hd : controller.dispatch r c.controllerState
    { peer := c.peer, cseq := r.cseq, link := c.link } with ⟨outcome, state, x⟩
  rw [hd] at hok hreliable
  dsimp only at hok hreliable
  subst hok
  have hserve : controller.serve c.peer r c.controllerState c.link = (state, x.link, none) := by
    simp only [Controller.serve, hd]
  obtain ⟨hstate, hrest⟩ := Prod.mk.inj (hserved.trans hserve)
  obtain ⟨hlink, hopen⟩ := Prod.mk.inj hrest
  rw [hopen] at hturn
  refine ⟨d, hturn, ⟨⟨hparser, hcapacity, hopen⟩, hlink ▸ hreliable⟩, hbuffer, hpeer, ?_⟩
  simp only [Controller.dispatchAll, hd, hstate, hlink]

/-! ### Streams -/

/-- From the start of a message, a connection with whole messages in its buffer dispatches
the requests among them and is at the start again, with the bytes behind them. -/
theorem process_messages_append (controller : Controller γ) (hc : c.Ready config)
    (messages : List (Message config)) {rest : Bytes}
    (hb : c.buffer = messages.flatMap Message.bytes ++ rest) :
    ∃ d : Connection γ, c.process controller = d.process controller ∧ d.Ready config ∧
      d.buffer = rest ∧ (d.controllerState, d.link) =
        controller.dispatchAll c.peer (messages.filterMap Message.request?)
          (c.controllerState, c.link) := by
  induction messages generalizing c with
  | nil => exact ⟨c, rfl, hc, hb, rfl⟩
  | cons m messages ih =>
    rw [List.flatMap_cons, List.append_assoc] at hb
    cases m with
    | request text whole =>
      obtain ⟨d, ht, hd, hbuffer, hpeer, hserved⟩ :=
        turn_of_whole_request_of_ready controller hc whole hb
      obtain ⟨last, hsame, hready, hrest, hstate⟩ := ih hd hbuffer
      refine ⟨last, (process_of_again ht).trans hsame, hready, hrest, ?_⟩
      rw [hstate, hpeer, hserved]
      rfl
    | frame channel high low payload whole =>
      have ht := turn_of_whole_frame controller hc.toAtStart whole hb
      rw [process_of_again ht]
      exact ih (c := { c with buffer := messages.flatMap Message.bytes ++ rest })
        ⟨⟨hc.parser, hc.capacity, hc.closed⟩, hc.reliable⟩ rfl

theorem process_messages (controller : Controller γ) (hc : c.Ready config)
    (messages : List (Message config)) (hb : c.buffer = messages.flatMap Message.bytes) :
    (c.process controller).Ready config ∧ (c.process controller).buffer = [] ∧
      ((c.process controller).controllerState, (c.process controller).link) =
        controller.dispatchAll c.peer (messages.filterMap Message.request?)
          (c.controllerState, c.link) := by
  obtain ⟨d, hsame, hd, hbuffer, hstate⟩ :=
    process_messages_append controller hc messages (hb.trans (List.append_nil _).symm)
  rw [hsame, process_of_buffer_eq_nil hbuffer (by rw [hd.parser])]
  refine ⟨⟨⟨hd.parser, ?_, hd.closed⟩, hd.reliable⟩, hbuffer, hstate⟩
  rw [settled, Parser.held_of_method (by rw [hd.parser])]
  exact hd.capacity

/-- Whatever its sink does, a connection makes of whole messages what the requests among them
come to, up to the first whose response cannot be written. -/
theorem process_messages_serveAll (controller : Controller γ) (hc : c.AtStart config)
    (messages : List (Message config)) (hb : c.buffer = messages.flatMap Message.bytes) :
    ((c.process controller).controllerState, (c.process controller).link,
        (c.process controller).closed) =
      controller.serveAll c.peer (messages.filterMap Message.request?) c.controllerState
        c.link := by
  induction messages generalizing c with
  | nil =>
    rw [process_of_buffer_eq_nil hb (by rw [hc.parser])]
    exact congrArg (fun closed => (c.controllerState, c.link, closed)) hc.closed
  | cons m messages ih =>
    rw [List.flatMap_cons] at hb
    cases m with
    | request text whole =>
      obtain ⟨d, hturn, hparser, hcapacity, hbuffer, hpeer, hserved⟩ :=
        turn_of_whole_request controller hc whole hb
      have hrequest : (Message.request text whole).request? = some _ := rfl
      rw [List.filterMap_cons_some hrequest, Controller.serveAll, ← hserved]
      cases hclosed : d.closed with
      | none =>
        rw [hclosed] at hturn
        rw [process_of_again hturn, ih ⟨hparser, hcapacity, hclosed⟩ hbuffer, hpeer]
      | some reason =>
        rw [hclosed] at hturn
        rw [process_of_rest hturn, hclosed]
    | frame channel high low payload whole =>
      rw [process_of_again (turn_of_whole_frame controller hc whole hb)]
      exact ih (c := { c with buffer := messages.flatMap Message.bytes })
        ⟨hc.parser, hc.capacity, hc.closed⟩ rfl

/-- The reads come to the dispatching of these requests one after the other, and to
nothing else; the connection stays open and waits for the next message. -/
structure Serves (controller : Controller γ) (config : ServerConfig) (peer : Endpoint) (s : γ)
    (link : Link) (reads : List Bytes) (requests : List Request) : Prop where
  /-- The controller and the link have been through the requests in this order. -/
  dispatched : (((opened config peer s link).receiveAll controller reads).controllerState,
    ((opened config peer s link).receiveAll controller reads).link) =
      controller.dispatchAll peer requests (s, link)
  /-- No hook was called to answer anything but these requests. -/
  answered : ((opened config peer s link).calls controller reads).filterMap Call.answered? =
    requests
  buffer_eq : ((opened config peer s link).receiveAll controller reads).buffer = []
  parser_eq : ((opened config peer s link).receiveAll controller reads).parser =
    { limits := config.limits }
  is_open : ((opened config peer s link).receiveAll controller reads).closed = none

theorem serves_single_read (controller : Controller γ) (peer : Endpoint) (s : γ) {link : Link}
    (hlink : link.connection.behaviour.Reliable) (messages : List (Message config)) :
    Serves controller config peer s link [messages.flatMap Message.bytes]
      (messages.filterMap Message.request?) := by
  have hready {δ : Type} (s : δ) :
      ((opened config peer s link).extend (messages.flatMap Message.bytes)).Ready config :=
    ⟨⟨rfl, rfl, rfl⟩, hlink⟩
  obtain ⟨hr, hnil, hstate⟩ := process_messages controller (hready s) messages rfl
  obtain ⟨-, -, hnoted⟩ := process_messages controller.traced (hready (s, [])) messages rfl
  have htraced := controller.dispatchAll_traced peer (messages.filterMap Message.request?) s []
    link
  refine ⟨hstate, ?_, hnil, hr.parser, hr.closed⟩
  have hlog := congrArg (fun served => served.1.2) (hnoted.trans htraced)
  rw [← controller.filterMap_answered?_callsAll peer (messages.filterMap Message.request?)
    (s, link)]
  exact congrArg (List.filterMap Call.answered?) hlog

/-- A stream of whole messages is served message by message, when it is taken in at once
and, where the bound on an unfinished line does not wrap, in any reads. -/
theorem receiveAll_messages_serves (controller : Controller γ) (peer : Endpoint) (s : γ)
    {link : Link} (hlink : link.connection.behaviour.Reliable) (messages : List (Message config)) :
    let stream := messages.flatMap Message.bytes
    let requests := messages.filterMap Message.request?
    Serves controller config peer s link [stream] requests ∧
      (config.limits.NoWrap → ∀ reads : List Bytes, reads.flatten = stream →
        Serves controller config peer s link reads requests) := by
  intro stream requests
  have hone : Serves controller config peer s link [stream] requests :=
    serves_single_read controller peer s hlink messages
  refine ⟨hone, ?_⟩
  intro hl reads hreads
  have hagrees := receiveAll_opened_agrees controller hl peer s link reads
  have hnoted := receiveAll_opened_agrees controller.traced hl peer (s, []) link reads
  rw [hreads] at hagrees hnoted
  have hopen := hagrees.closed.trans hone.is_open
  have hsettled := hagrees.settled hopen
  refine ⟨?_, ?_, ?_, ?_, hopen⟩
  · rw [hagrees.state, hagrees.link]
    exact hone.dispatched
  · rw [← hone.answered]
    exact congrArg (fun notes => notes.2.filterMap Call.answered?) hnoted.state
  · exact (congrArg Connection.buffer hsettled :).trans hone.buffer_eq
  · exact (congrArg Connection.parser hsettled :).trans hone.parser_eq

/-- A frame that carries the start of a request, and a request, cut inside the frame,
before a controller that leaves everything unanswered. -/
theorem receiveAll_frame_options_serves :
    Behaviour.accepting.Reliable ∧ ({} : ServerConfig).limits.NoWrap ∧
      let messages : List (Message {}) :=
        [.frame 1 0 4 (Text.utf8 "PLAY") (by decide),
          .request (Text.utf8 "OPTIONS * RTSP/1.0\r\nCSeq: 1\r\n\r\n") (by decide +kernel)]
      let stream := messages.flatMap Message.bytes
      Serves (Script.controller fun _ => []) {} ⟨.v4 127 0 0 1, 554, 0⟩ [] {}
        [stream.take 6, stream.drop 6] (messages.filterMap Message.request?) := by
  have hl : ({} : ServerConfig).limits.NoWrap := by decide
  refine ⟨Behaviour.reliable_accepting, hl, ?_⟩
  intro messages stream
  have hreads : [stream.take 6, stream.drop 6].flatten = stream := by
    rw [List.flatten_cons, List.flatten_singleton, List.take_append_drop]
  exact (receiveAll_messages_serves _ _ _ Behaviour.reliable_accepting messages).2 hl _ hreads

end Connection

end RealTimeStreaming
