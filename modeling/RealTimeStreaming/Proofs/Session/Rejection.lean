import RealTimeStreaming.Proofs.Request.Faults
import RealTimeStreaming.Proofs.Session.Answering
import RealTimeStreaming.Proofs.Session.Backlog

/-! The end of a connection on which a request fails to parse. The requests in front of it have
been dispatched and answered by then; one message more is written, whose lines are those of the
server whatever the client sent, and after it nothing happens any more. -/

namespace RealTimeStreaming

open Octet

/-! ### The lines of a refusal -/

/-- The status and the reason that a request that failed is answered with. -/
def ParseError.refusal : ParseError → UInt16 × String
  | .tooLong .requestUri _ => (414, "Request-URI Too Large")
  | .tooLong _ _ => (413, "Request Entity Too Large")
  | .headersFull => (413, "Request Entity Too Large")
  | _ => (400, "Bad Request")

theorem ParseError.refusal_cases (e : ParseError) :
    e.refusal = (414, "Request-URI Too Large") ∨ e.refusal = (413, "Request Entity Too Large") ∨
      e.refusal = (400, "Bad Request") := by
  cases e with
  | tooLong kind limit =>
    cases kind with
    | requestUri => exact .inl rfl
    | _ => exact .inr (.inl rfl)
  | headersFull => exact .inr (.inl rfl)
  | _ => exact .inr (.inr rfl)

/-- The lines of the answer to a request that fails behind these fields. -/
def refusalLines (fields : List Header) (e : ParseError) : List String :=
  [s!"RTSP/1.0 {e.refusal.1} {e.refusal.2}", "Server: rtsp-wire/0.1"] ++
    ((lastValue? "CSeq" fields).map fun value => "CSeq: " ++ value).toList

theorem rejection_eq (e : ParseError) (r : Request) :
    Connection.rejection e r =
      { status := e.refusal.1
        reason := e.refusal.2
        headers := ("Server", Response.agent) ::
          ((r.header? "CSeq").map fun value => ("CSeq", value)).toList } := by
  unfold Connection.rejection
  cases e with
  | tooLong kind limit => cases kind <;> cases r.header? "CSeq" <;> rfl
  | _ => cases r.header? "CSeq" <;> rfl

theorem encode_rejection {fields : List Header} {r : Request} (e : ParseError)
    (h : r.header? "CSeq" = lastValue? "CSeq" fields) :
    (Connection.rejection e r).encode =
      ((refusalLines fields e).map fun line => Text.utf8 line ++ crlf).flatten ++ crlf := by
  rw [rejection_eq, h, Response.encode_eq, refusalLines]
  cases lastValue? "CSeq" fields with
  | none =>
    simp only [Response.lines, Response.allHeaders]
    rfl
  | some value =>
    simp only [Response.lines, Response.allHeaders]
    rfl

/-- Line feeds end the lines of a refusal and stand nowhere else in it. -/
theorem splitOn_encode_rejection {limits : Limits} {capacity : Nat} {fields : List Header}
    {bad : Bytes} {e : ParseError} {r : Request} (hfault : Fault limits capacity fields bad e)
    (h : r.header? "CSeq" = lastValue? "CSeq" fields) :
    (Connection.rejection e r).encode.splitOn lineFeed =
      (refusalLines fields e).map (fun line => Text.utf8 line ++ [carriageReturn]) ++
        [[carriageReturn], []] := by
  have hlines : ∀ line ∈ (refusalLines fields e).map Text.utf8, lineFeed ∉ line := by
    intro line hm
    obtain ⟨text, htext, rfl⟩ := List.mem_map.1 hm
    rw [refusalLines, List.mem_append] at htext
    rcases htext with htext | htext
    · simp only [List.mem_cons, List.not_mem_nil, or_false] at htext
      rcases htext with rfl | rfl
      · rcases e.refusal_cases with he | he | he <;> rw [he] <;> decide
      · decide
    · obtain ⟨value, hvalue, rfl⟩ := Option.map_eq_some_iff.1 (Option.mem_toList.1 htext)
      obtain ⟨f, hf, -, rfl⟩ := exists_mem_of_lastValue? hvalue
      rw [Text.utf8_append, List.mem_append, not_or]
      exact ⟨by decide, hfault.lineFeed_notMem hf⟩
  have hall := splitOn_lines hlines crlf
  rw [List.map_map, List.map_map] at hall
  rw [encode_rejection e h]
  exact hall

/-! ### Messages in front of the buffer -/

namespace Connection

variable {γ : Type} {controller : Controller γ} {config : ServerConfig} {c d : Connection γ}

theorem exists_message_of_frame (config : ServerConfig) {n : Nat} (h : c.front = .frame n) :
    ∃ m : Message config, m.request? = none ∧ m.bytes ++ c.buffer.drop n = c.buffer := by
  unfold front at h
  split at h
  · split at h
    · cases h
    · rename_i channel length hheader
      split at h
      · cases h
      · rename_i hle
        cases h
        unfold Frame.readHeader? at hheader
        split at hheader
        · rename_i first channel' high low rest hbuffer
          split at hheader
          · rename_i hfirst
            cases hheader
            subst hfirst
            rw [hbuffer] at hle
            simp only [Frame.headerLength, List.length_cons] at hle
            have hwhole : (rest.take (high.toNat * 256 + low.toNat)).length =
                high.toNat * 256 + low.toNat := List.length_take_of_le (by omega)
            refine ⟨.frame channel high low _ hwhole, rfl, ?_⟩
            rw [hbuffer, Message.bytes, Frame.headerLength, Nat.add_comm 4]
            simp only [List.cons_append, List.drop_succ_cons, List.take_append_drop]
          · cases hheader
        · cases hheader
  · cases h

theorem exists_message_of_done {x : Bytes} (h : (look config x).1.stage = .done) :
    ∃ m : Message config, m.request? = some (look config x).2 ∧
      m.bytes ++ x.drop (look config x).1.offset = x := by
  have hcomp : ({ limits := config.limits } : Parser).Completes (.blank config.headerCapacity) x
      (look config x).1.offset (look config x).2 := ⟨rfl, h, (Nat.zero_add _).symm⟩
  obtain ⟨t, fields, ⟨tail, htail⟩, hlength, hdenotes⟩ := (Parser.completes_method_iff rfl).1 hcomp
  obtain ⟨hrequest, hwhole⟩ := Message.whole_of_denotes hdenotes
  refine ⟨.request t.bytes hwhole, congrArg some hrequest, ?_⟩
  rw [Message.bytes, ← hlength]
  conv => lhs; rw [← htail]
  rw [List.drop_left, htail]

/-- A parser that has read anything has read the start of a method. -/
theorem Tracks.starts_eq_false (h : c.Tracks config) (hf : c.front = .request) :
    Frame.starts c.buffer = false := by
  rw [← Bool.not_eq_true]
  intro hstarts
  apply front_eq_request_iff.1 hf
  refine ⟨?_, hstarts⟩
  obtain ⟨seen, ⟨rest, hrest⟩, hlook⟩ := h.seen
  have hfst : (look config seen).1 = c.parser := by rw [hlook]
  have hwaits := h.waits
  rw [← hfst] at hwaits ⊢
  simp only [look, Parser.parse, List.drop_zero] at hwaits ⊢
  rcases hs : ({ limits := config.limits } : Parser).step (.blank config.headerCapacity) seen
    with ⟨r, reading⟩
  cases reading with
  | needMore => rw [Parser.run_of_needMore hs]
  | failed e =>
    rw [Parser.run_of_failed hs] at hwaits
    cases hwaits
  | complete q n =>
    obtain ⟨m, hread, -, -⟩ := Parser.store_eq_complete_iff.1 hs
    obtain ⟨lead, token, sep, more, hseen, hlead, hm, -⟩ := Method.read_eq_complete_iff.1 hread
    have hnot := hm.starts_eq_false hlead (sep :: more ++ rest)
    rw [← List.append_assoc, ← hseen, hrest, hstarts] at hnot
    cases hnot

/-! ### Up to the fault -/

/-- What has come of the bytes that have arrived: whole messages, the requests among them
dispatched in their order, and a buffer with the bytes behind them. -/
structure Served (controller : Controller γ) (config : ServerConfig) (peer : Endpoint) (s : γ)
    (link : Link) (arrived : Bytes) (c : Connection γ) : Prop where
  tracks : c.Tracks config
  is_open : c.closed = none
  peer_eq : c.peer = peer
  reliable : c.link.connection.behaviour.Reliable
  messages : ∃ messages : List (Message config),
    messages.flatMap Message.bytes ++ c.buffer = arrived ∧
    (c.controllerState, c.link) =
      controller.dispatchAll peer (messages.filterMap Message.request?) (s, link)

/-- What has come of a request that failed behind whole messages: these are dealt with likewise,
and then it is refused, by what it holds itself. -/
structure Refused (controller : Controller γ) (peer : Endpoint) (s : γ) (link : Link)
    (messages : List (Message config)) (bad : Bytes) (e : ParseError) (c : Connection γ) :
    Prop where
  starts : Frame.starts bad = false
  fails : (look config bad).1.stage = .failed e
  closed : c.closed = some .malformedRequest
  served : ∃ before, before.connection.behaviour.Reliable ∧
    (c.controllerState, before) =
      controller.dispatchAll peer (messages.filterMap Message.request?) (s, link) ∧
    c.link = { before with
      connection := (before.connection.write (rejection e (look config bad).2).encode).2 }

/-- The bytes that have arrived end in a request that was refused. -/
def EndsRefused (controller : Controller γ) (config : ServerConfig) (peer : Endpoint) (s : γ)
    (link : Link) (arrived : Bytes) (c : Connection γ) : Prop :=
  ∃ (messages : List (Message config)) (bad : Bytes) (e : ParseError),
    messages.flatMap Message.bytes ++ bad = arrived ∧
    Refused controller peer s link messages bad e c

variable {peer : Endpoint} {s : γ} {link : Link} {arrived : Bytes}

theorem Served.extend (h : Served controller config peer s link arrived c) (bytes : Bytes) :
    Served controller config peer s link (arrived ++ bytes) (c.extend bytes) := by
  obtain ⟨messages, rfl, hstate⟩ := h.messages
  exact ⟨h.tracks.extend bytes, h.is_open, h.peer_eq, h.reliable, messages,
    (List.append_assoc _ _ _).symm, hstate⟩

/-- One message more has been dealt with. -/
theorem Served.snoc (h : Served controller config peer s link arrived c)
    (htracks : d.Tracks config) (hopen : d.closed = none) (hpeer : d.peer = c.peer)
    (hreliable : d.link.connection.behaviour.Reliable) {m : Message config}
    (hbytes : m.bytes ++ d.buffer = c.buffer)
    (hstate : (d.controllerState, d.link) =
      controller.dispatchAll c.peer m.request?.toList (c.controllerState, c.link)) :
    Served controller config peer s link arrived d := by
  obtain ⟨messages, harrived, hbefore⟩ := h.messages
  refine ⟨htracks, hopen, hpeer.trans h.peer_eq, hreliable, messages ++ [m], ?_, ?_⟩
  · rw [List.flatMap_append, List.append_assoc, List.flatMap_singleton, hbytes, harrived]
  · have hlast : [m].filterMap Message.request? = m.request?.toList := by
      cases hm : m.request? <;> simp [hm]
    rw [List.filterMap_append, hlast, Controller.dispatchAll_append, ← hbefore, hstate, h.peer_eq]

theorem Served.turn_done (h : Served controller config peer s link arrived c)
    (hf : c.front = .request) (hs : c.read.parser.stage = .done) :
    ∃ d, c.turn controller = .again d ∧ Served controller config peer s link arrived d := by
  have hlook := h.tracks.look_eq
  obtain ⟨m, hm, hbytes⟩ := exists_message_of_done (x := c.buffer) (by rw [hlook]; exact hs)
  rw [hlook] at hm hbytes
  have hsound : Exchange.Sound
      { peer := c.read.peer, cseq := c.read.request.cseq, link := c.read.link } :=
    ⟨h.reliable, by simp⟩
  obtain ⟨⟨n, hok⟩, hreliable⟩ :=
    controller.dispatch_of_sound c.read.request c.read.controllerState hsound
  have hopen : (c.read.answer controller).closed = none := by
    simp only [answer, hok]
  have ht : c.turn controller = _ := turn_of_done hf hs
  rw [hopen] at ht
  simp only [Option.isSome_none, Bool.false_eq_true, if_false] at ht
  refine ⟨_, ht, h.snoc (h.tracks.turn_again ht) hopen rfl hreliable hbytes ?_⟩
  rw [hm]
  rfl

/-- A turn deals with one message, or waits, or refuses. -/
theorem Served.turn (h : Served controller config peer s link arrived c) :
    match c.turn controller with
    | .again d => Served controller config peer s link arrived d
    | .rest d => Served controller config peer s link arrived d ∨
        EndsRefused controller config peer s link arrived d := by
  obtain ⟨messages, harrived, hstate⟩ := h.messages
  cases hf : c.front with
  | frame n =>
    obtain ⟨m, hm, hbytes⟩ := exists_message_of_frame config hf
    have ht : c.turn controller = _ := turn_of_frame hf
    have htracks := h.tracks.turn_again ht
    rw [ht]
    refine h.snoc htracks h.is_open rfl h.reliable hbytes ?_
    rw [hm]
    rfl
  | partOfFrame =>
    rw [turn_of_partOfFrame hf]
    exact .inl h
  | request =>
    cases hs : c.read.parser.stage with
    | failed e =>
      have hlook := h.tracks.look_eq
      rw [turn_of_failed hf hs]
      have hfails : (look config c.buffer).1.stage = .failed e := by
        rw [hlook]
        exact hs
      refine .inr ⟨messages, c.buffer, e, harrived, h.tracks.starts_eq_false hf, hfails, rfl,
        c.link, h.reliable, hstate, ?_⟩
      rw [hlook]
      rfl
    | done =>
      obtain ⟨d, ht, hserved⟩ := h.turn_done hf hs
      rw [ht]
      exact hserved
    | _ =>
      have hwaits : c.read.parser.stage.isTerminal = false := by
        rw [hs]
        rfl
      rw [turn_of_waiting hf hwaits]
      exact .inl
        ⟨h.tracks.read hwaits, h.is_open, h.peer_eq, h.reliable, messages, harrived, hstate⟩

theorem Served.process (h : Served controller config peer s link arrived c) :
    Served controller config peer s link arrived (c.process controller) ∨
      EndsRefused controller config peer s link arrived (c.process controller) := by
  fun_induction Connection.process controller c with
  | case1 c d ht ih =>
    have hturn := h.turn
    rw [ht] at hturn
    exact ih hturn
  | case2 c d ht =>
    have hturn := h.turn
    rw [ht] at hturn
    exact hturn

/-- The reads are served, or one of them brings a fault and those behind it change nothing. -/
theorem Served.receiveAll (h : Served controller config peer s link arrived c)
    (reads : List Bytes) :
    Served controller config peer s link (arrived ++ reads.flatten)
        (c.receiveAll controller reads) ∨
      ∃ taken later, reads = taken ++ later ∧
        c.receiveAll controller taken = c.receiveAll controller reads ∧
        EndsRefused controller config peer s link (arrived ++ taken.flatten)
          (c.receiveAll controller reads) := by
  induction reads generalizing arrived c with
  | nil =>
    rw [List.flatten_nil, List.append_nil]
    exact .inl h
  | cons bytes reads ih =>
    rw [receiveAll_cons, receive_eq_process h.is_open, List.flatten_cons, ← List.append_assoc]
    obtain hserved | hrefused := (h.extend bytes).process
    · obtain hserved | ⟨taken, later, rfl, hsame, hrefused⟩ := ih hserved
      · exact .inl hserved
      · refine .inr ⟨bytes :: taken, later, rfl, ?_, ?_⟩
        · rw [receiveAll_cons, receive_eq_process h.is_open, hsame]
        · rwa [List.flatten_cons, ← List.append_assoc]
    · have hclosed : ((c.extend bytes).process controller).closed ≠ none := by
        obtain ⟨messages, bad, e, -, hrefused⟩ := hrefused
        rw [hrefused.closed]
        exact Option.some_ne_none _
      rw [receiveAll_of_closed hclosed]
      refine .inr ⟨[bytes], reads, rfl, ?_, ?_⟩
      · rw [receiveAll_cons, receiveAll_nil, receive_eq_process h.is_open]
      · rwa [List.flatten_singleton]

theorem served_opened (controller : Controller γ) (config : ServerConfig) (peer : Endpoint)
    (s : γ) {link : Link} (hlink : link.connection.behaviour.Reliable) :
    Served controller config peer s link [] (opened config peer s link) :=
  ⟨tracks_of_new rfl rfl, rfl, rfl, hlink, [], rfl, rfl⟩

/-! ### The end of a connection -/

/-- The reads hold whole messages with a request behind them that fails with the error, once the
header lines of the fields have been read. It is the last thing that the connection deals with. -/
structure Rejects (controller : Controller γ) (config : ServerConfig) (peer : Endpoint) (s : γ)
    (link : Link) (reads : List Bytes) (messages : List (Message config)) (fields : List Header)
    (bad : Bytes) (e : ParseError) : Prop where
  /-- What the client has sent by the read in which the fault is found. -/
  arrived : ∃ taken later, reads = taken ++ later ∧
    messages.flatMap Message.bytes ++ bad = taken.flatten ∧
    (opened config peer s link).receiveAll controller taken =
      (opened config peer s link).receiveAll controller reads
  starts : Frame.starts bad = false
  fails : (({ limits := config.limits } : Parser).parse (.blank config.headerCapacity)
    bad).1.result = .error e
  fault : Fault config.limits config.headerCapacity fields bad e
  /-- Each request is answered, then one message more is written. -/
  written : ∃ wires refusal,
    List.Forall₂ Request.AnsweredBy (messages.filterMap Message.request?) wires ∧
    ((opened config peer s link).receiveAll controller reads).link.connection.taken =
      link.connection.taken ++ (wires.flatten ++ refusal) ∧
    refusal.splitOn lineFeed =
      (refusalLines fields e).map (fun line => Text.utf8 line ++ [carriageReturn]) ++
        [[carriageReturn], []]
  state : ((opened config peer s link).receiveAll controller reads).controllerState =
    (controller.dispatchAll peer (messages.filterMap Message.request?) (s, link)).1
  datagrams : ((opened config peer s link).receiveAll controller reads).link.datagrams =
    (controller.dispatchAll peer (messages.filterMap Message.request?) (s, link)).2.datagrams
  /-- No hook is called but for these requests. -/
  calls : (opened config peer s link).calls controller reads =
    controller.callsAll peer (messages.filterMap Message.request?) (s, link)
  final : ∀ more, ((opened config peer s link).receiveAll controller reads).receiveAll controller
    more = (opened config peer s link).receiveAll controller reads

/-- The hooks have been called for the messages in front of the refused request. -/
theorem Refused.withoutNotes {messages : List (Message config)} {bad : Bytes} {e : ParseError}
    {c : Connection (γ × List Call)}
    (h : Refused controller.traced peer (s, []) link messages bad e c) :
    Refused controller peer s link messages bad e c.withoutNotes ∧
      c.controllerState.2 =
        controller.callsAll peer (messages.filterMap Message.request?) (s, link) := by
  obtain ⟨before, hworks, hstate, hwritten⟩ := h.served
  rw [controller.dispatchAll_traced, Prod.mk.injEq, Prod.ext_iff] at hstate
  obtain ⟨⟨hstate, hcalls⟩, hbefore⟩ := hstate
  exact ⟨⟨h.starts, h.fails, h.closed, before, hworks, Prod.ext hstate hbefore, hwritten⟩, hcalls⟩

/-- Each request is answered, and the refusal comes last. -/
theorem Refused.written {messages : List (Message config)} {bad : Bytes} {e : ParseError}
    (h : Refused controller peer s link messages bad e c)
    (hlink : link.connection.behaviour.Reliable) :
    ∃ wires, List.Forall₂ Request.AnsweredBy (messages.filterMap Message.request?) wires ∧
      c.link.connection.taken =
        link.connection.taken ++ (wires.flatten ++ (rejection e (look config bad).2).encode) := by
  obtain ⟨before, hworks, hstate, hwritten⟩ := h.served
  obtain ⟨wires, hanswered, htaken⟩ :=
    controller.dispatchAll_answers peer (messages.filterMap Message.request?) s hlink
  have hwrite := Sink.write_of_reliable hworks (rejection e (look config bad).2).encode
  refine ⟨wires, hanswered, ?_⟩
  rw [← hstate] at htaken
  rw [hwritten, ← List.append_assoc, ← htaken]
  exact Sink.taken_write (Prod.ext hwrite rfl)

theorem rejects_of_closed (controller : Controller γ) (config : ServerConfig) (peer : Endpoint)
    (s : γ) {link : Link} (hlink : link.connection.behaviour.Reliable) (reads : List Bytes)
    (hclosed : ((opened config peer s link).receiveAll controller reads).closed =
      some .malformedRequest) :
    ∃ messages fields bad e,
      Rejects controller config peer s link reads messages fields bad e := by
  have hnotes := withoutNotes_receiveAll controller (opened config peer s link)
  obtain hserved | ⟨taken, later, hreads, hsame, messages, bad, e, harrived, hnoted⟩ :=
    (served_opened controller.traced config peer (s, []) hlink).receiveAll reads
  · rw [← hnotes reads] at hclosed
    cases hserved.is_open.symm.trans hclosed
  · obtain ⟨hrefused, hcalls⟩ := hnoted.withoutNotes
    replace hrefused : Refused controller peer s link messages bad e
      ((opened config peer s link).receiveAll controller reads) := hnotes reads ▸ hrefused
    obtain ⟨fields, hheaders, hfault⟩ := Parser.fault_of_parse hrefused.fails
    have hcseq : (look config bad).2.header? "CSeq" = lastValue? "CSeq" fields := by
      rw [Request.header?, look, hheaders, get?_collect]
    obtain ⟨wires, hanswered, hwritten⟩ := hrefused.written hlink
    obtain ⟨before, -, hstate, hlast⟩ := hrefused.served
    refine ⟨messages, fields, bad, e, ⟨taken, later, hreads, harrived, ?_⟩, hrefused.starts,
      Parser.result_eq_error_iff.2 hrefused.fails, hfault,
      ⟨wires, _, hanswered, hwritten, splitOn_encode_rejection hfault hcseq⟩, ?_, ?_, hcalls,
      fun more => ?_⟩
    · rw [← hnotes taken, ← hnotes reads]
      exact congrArg withoutNotes hsame
    · rw [← hstate]
    · rw [hlast, ← hstate]
    · apply receiveAll_of_closed
      rw [hclosed]
      exact Option.some_ne_none _

/-- At the start of a message the parser is shown all that is in the buffer. -/
theorem AtStart.parser_read (hc : c.AtStart config) :
    c.read.parser = (look config c.buffer).1 := by
  rw [Connection.read, hc.parser, Parser.parse_eq_of_method rfl, hc.capacity, look]

/-- A request that fails behind whole messages closes the connection. -/
theorem closed_of_fault (controller : Controller γ) (peer : Endpoint) (s : γ) {link : Link}
    (hlink : link.connection.behaviour.Reliable) (messages : List (Message config)) {bad : Bytes}
    {e : ParseError} (hstarts : Frame.starts bad = false)
    (hfails : (({ limits := config.limits } : Parser).parse (.blank config.headerCapacity)
      bad).1.result = .error e) :
    ((opened config peer s link).receive controller
      (messages.flatMap Message.bytes ++ bad)).closed = some .malformedRequest := by
  have hready : ((opened config peer s link).extend
      (messages.flatMap Message.bytes ++ bad)).Ready config := ⟨⟨rfl, rfl, rfl⟩, hlink⟩
  obtain ⟨d, hsame, hd, hbuffer, -⟩ := process_messages_append controller hready messages rfl
  have hf : d.front = .request := by
    rw [front_eq_request_iff, hbuffer, hstarts]
    simp
  have hfailed : d.read.parser.stage = .failed e := by
    rw [hd.toAtStart.parser_read, hbuffer]
    exact Parser.result_eq_error_iff.1 hfails
  rw [receive_eq_process rfl, hsame, process_of_rest (turn_of_failed hf hfailed)]
  rfl

/-- A connection that is closed over a malformed request has answered every request in front of it
and then written the refusal and nothing else. Wherever a request fails behind whole messages this
happens: when all is taken in at once and, where the bound on an unfinished line does not wrap, in
any reads. -/
theorem receiveAll_rejects (controller : Controller γ) (config : ServerConfig) (peer : Endpoint)
    (s : γ) {link : Link} (hlink : link.connection.behaviour.Reliable) (reads : List Bytes) :
    (((opened config peer s link).receiveAll controller reads).closed = some .malformedRequest →
      ∃ messages fields bad e,
        Rejects controller config peer s link reads messages fields bad e) ∧
    ∀ (messages : List (Message config)) (bad : Bytes) (e : ParseError),
      reads.flatten = messages.flatMap Message.bytes ++ bad → Frame.starts bad = false →
      (({ limits := config.limits } : Parser).parse (.blank config.headerCapacity)
        bad).1.result = .error e →
      (reads.length = 1 ∨ config.limits.NoWrap) →
      ((opened config peer s link).receiveAll controller reads).closed =
        some .malformedRequest := by
  refine ⟨rejects_of_closed controller config peer s hlink reads, ?_⟩
  intro messages bad e hreads hstarts hfails hcut
  have hone := closed_of_fault controller peer s hlink messages hstarts hfails
  rw [← hreads] at hone
  rcases hcut with hlength | hl
  · obtain ⟨bytes, rfl⟩ := List.length_eq_one_iff.1 hlength
    rwa [List.flatten_singleton] at hone
  · exact (receiveAll_opened_agrees controller hl peer s link reads).closed.trans hone

/-- A request and a frame, and a request whose third header line has no colon, cut inside that
line. The request behind it is not looked at. -/
theorem receiveAll_rejects_bad_line :
    let options := Text.utf8 "OPTIONS * RTSP/1.0\r\nCSeq: 1\r\n\r\n"
    let bad := Text.utf8 "PLAY * RTSP/1.0\r\ncseq: 7\r\nCSeq: 8\r\nno colon\r\n"
    let reads := [options ++ [0x24, 0, 0, 1, 9] ++ bad.take 40, bad.drop 40 ++ options, options]
    let controller := Script.controller fun _ => []
    let c := (opened {} ⟨.v4 127 0 0 1, 554, 0⟩ [] {}).receiveAll controller reads
    Behaviour.accepting.Reliable ∧ c.closed = some .malformedRequest ∧
      c.link.connection.taken = Text.utf8
        ("RTSP/1.0 500 Internal Server Error\r\nServer: rtsp-wire/0.1\r\nCSeq: 1\r\n\r\n" ++
          "RTSP/1.0 400 Bad Request\r\nServer: rtsp-wire/0.1\r\nCSeq: 8\r\n\r\n") ∧
      ∃ messages fields bad e, Rejects controller {} ⟨.v4 127 0 0 1, 554, 0⟩ [] {} reads messages
        fields bad e := by
  intro options bad reads controller c
  have hclosed : c.closed = some .malformedRequest := by decide +kernel
  exact ⟨Behaviour.reliable_accepting, hclosed, by decide +kernel,
    (receiveAll_rejects controller {} ⟨.v4 127 0 0 1, 554, 0⟩ [] Behaviour.reliable_accepting
      reads).1 hclosed⟩

end Connection

end RealTimeStreaming
