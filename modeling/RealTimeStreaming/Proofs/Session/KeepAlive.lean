import RealTimeStreaming.Proofs.Session.Rejection

/-! Blanks between messages, as clients send them to keep a connection alive. In front of a
request they are part of its text, and nobody can tell that they were there. In front of a
frame they are taken for the start of a request too: the dollar sign behind them is then read
as a method, so the frame is not passed over and the connection is closed. -/

namespace RealTimeStreaming

open Octet

variable {config : ServerConfig}

/-! ### Messages with blanks in front of them -/

theorem tokenReach_of_token {token rest : Bytes} {sep : UInt8} (hne : token ≠ [])
    (htoken : ∀ b ∈ token, isSeparator b = false) (hsep : isSeparator sep) :
    tokenReach isSeparator (token ++ sep :: rest) = token.length := by
  have hstart : ∀ b ∈ (token ++ sep :: rest).head?, isSeparator b = false := by
    obtain ⟨b, tail, rfl⟩ := List.exists_cons_of_ne_nil hne
    simpa using htoken b List.mem_cons_self
  have hend : ∀ b ∈ (sep :: rest).head?, (!isSeparator b) = false := by
    simpa using hsep
  rw [tokenReach, Text.takeWhile_eq_nil hstart, Text.dropWhile_eq_self hstart,
    Text.takeWhile_run (by simpa using htoken) hend, List.length_nil, Nat.zero_add]

namespace Message

/-- How far the method of a message reaches, with the blanks that the message itself starts
with. A frame has no method. -/
def methodReach : Message config → Nat
  | .request text _ => tokenReach isSeparator text
  | .frame .. => 0

/-- A request with blanks in front is a request, and the same one, where the limit of the
method leaves room for them. -/
theorem exists_request_with_lead {text blanks : Bytes}
    (whole : (({ limits := config.limits } : Parser).parse (.blank config.headerCapacity)
      text).1.result = .ok ⟨text.length, true⟩)
    (hblanks : ∀ b ∈ blanks, isSeparator b)
    (hfits : blanks.length + tokenReach isSeparator text ≤ config.limits.method.toNat) :
    ∃ m : Message config, m.bytes = blanks ++ text ∧
      m.request? = (Message.request text whole).request? := by
  obtain ⟨t, fields, rfl, hdenotes⟩ := exists_text whole
  have hreach : tokenReach isSeparator t.bytes = t.lead.length + t.method.length := by
    obtain ⟨sep, rest, hrest, hsep⟩ := Parser.exists_separator hdenotes.gap_ne
      hdenotes.rest.gap (t.rest.target ++ t.rest.rest.bytes)
    have hw : t.bytes = t.lead ++ (t.method ++ sep :: rest) := by
      rw [RequestText.bytes, TargetText.bytes, List.append_assoc, List.append_assoc t.rest.gap,
        hrest]
    rw [hw, tokenReach_append_lead hdenotes.lead,
      tokenReach_of_token hdenotes.method.ne_nil hdenotes.method.not_isSeparator hsep]
  have hpadded : ({ t with lead := blanks ++ t.lead } : RequestText).Denotes config.limits
      config.headerCapacity fields _ :=
    { hdenotes with
      lead := List.forall_mem_append.2 ⟨hblanks, hdenotes.lead⟩
      method_fits := by
        rw [hreach] at hfits
        simp only [List.length_append]
        omega }
  obtain ⟨hr, hwhole⟩ := whole_of_denotes hpadded
  have hbytes : ({ t with lead := blanks ++ t.lead } : RequestText).bytes = blanks ++ t.bytes := by
    simp only [RequestText.bytes, List.append_assoc]
  exact ⟨.request _ hwhole, hbytes, congrArg some hr⟩

/-- Every request has a blank in it. -/
theorem exists_separator_of_request {m : Message config} (h : m.request? ≠ none) :
    ∃ b ∈ m.bytes, isSeparator b := by
  cases m with
  | request text whole =>
    obtain ⟨t, fields, rfl, hdenotes⟩ := exists_text whole
    obtain ⟨b, gap, hgap⟩ := List.exists_cons_of_ne_nil hdenotes.gap_ne
    refine ⟨b, ?_, isSeparator_of_isSpace (hdenotes.rest.gap b (by simp [hgap]))⟩
    simp [Message.bytes, RequestText.bytes, TargetText.bytes, hgap]
  | frame => exact absurd rfl h

end Message

/-- A message with blanks in front of it, which fit into the limit of a method together with
the method that may follow them. -/
structure Padded (config : ServerConfig) where
  blanks : Bytes
  message : Message config
  isSeparator : ∀ b ∈ blanks, Octet.isSeparator b
  fits : blanks.length + message.methodReach ≤ config.limits.method.toNat

namespace Padded

def bytes (p : Padded config) : Bytes :=
  p.blanks ++ p.message.bytes

/-- The message is a frame and does not stand first, so its mark is not looked for. -/
def Hidden (p : Padded config) : Prop :=
  p.message.request? = none ∧ p.blanks ≠ []

/-- What is sent from here on, behind its first blanks, may be the start of a method: it holds
no blank, and it is short enough. -/
def Awaited (p : Padded config) (after : List (Padded config)) : Prop :=
  (∀ b ∈ p.message.bytes ++ after.flatMap bytes, Octet.isSeparator b = false) ∧
    (p.bytes ++ after.flatMap bytes).length ≤ config.limits.method.toNat

theorem exists_message {p : Padded config} (h : ¬ p.Hidden) :
    ∃ m : Message config, m.bytes = p.bytes ∧ m.request? = p.message.request? := by
  obtain ⟨blanks, message, hblanks, hfits⟩ := p
  cases message with
  | request text whole => exact Message.exists_request_with_lead whole hblanks hfits
  | frame channel high low payload whole =>
    have hnil : blanks = [] := by
      by_contra hne
      exact h ⟨rfl, hne⟩
    subst hnil
    exact ⟨.frame channel high low payload whole, rfl, rfl⟩

/-- Where no frame is hidden, the stream is one of messages, with the same requests. -/
theorem exists_messages {messages : List (Padded config)} (h : ∀ p ∈ messages, ¬ p.Hidden) :
    ∃ plain : List (Message config),
      plain.flatMap Message.bytes = messages.flatMap bytes ∧
      plain.filterMap Message.request? =
        (messages.map message).filterMap Message.request? := by
  induction messages with
  | nil => exact ⟨[], rfl, rfl⟩
  | cons p messages ih =>
    obtain ⟨hp, hmessages⟩ := List.forall_mem_cons.1 h
    obtain ⟨m, hbytes, hrequest⟩ := exists_message hp
    obtain ⟨plain, hplain, hrequests⟩ := ih hmessages
    refine ⟨m :: plain, ?_, ?_⟩
    · rw [List.flatMap_cons, List.flatMap_cons, hbytes, hplain]
    · rw [List.map_cons, List.filterMap_cons, List.filterMap_cons, hrequest, hrequests]

/-- The first of the hidden frames. -/
theorem exists_first_hidden {messages : List (Padded config)}
    (h : ¬ ∀ p ∈ messages, ¬ p.Hidden) :
    ∃ before p after, messages = before ++ p :: after ∧ (∀ q ∈ before, ¬ q.Hidden) ∧
      p.Hidden := by
  induction messages with
  | nil => exact absurd (fun _ hm => absurd hm List.not_mem_nil) h
  | cons q messages ih =>
    by_cases hq : q.Hidden
    · exact ⟨[], q, messages, rfl, fun _ hm => absurd hm List.not_mem_nil, hq⟩
    · have hrest : ¬ ∀ p ∈ messages, ¬ p.Hidden :=
        fun hall => h (List.forall_mem_cons.2 ⟨hq, hall⟩)
      obtain ⟨before, p, after, rfl, hbefore, hp⟩ := ih hrest
      exact ⟨q :: before, p, after, rfl, List.forall_mem_cons.2 ⟨hq, hbefore⟩, hp⟩

/-- Nothing that is awaited has a request in it. -/
theorem Awaited.requests_eq_nil {p : Padded config} {after : List (Padded config)}
    (h : p.Awaited after) : ((p :: after).map message).filterMap Message.request? = [] := by
  rw [List.filterMap_eq_nil_iff]
  intro m hm
  by_contra hne
  obtain ⟨b, hb, hsep⟩ := Message.exists_separator_of_request hne
  have hmem : b ∈ p.message.bytes ++ after.flatMap bytes := by
    rw [List.map_cons, List.mem_cons, List.mem_map] at hm
    rw [List.mem_append, List.mem_flatMap]
    rcases hm with rfl | ⟨q, hq, rfl⟩
    · exact .inl hb
    · exact .inr ⟨q, hq, List.mem_append_right _ hb⟩
  rw [h.1 b hmem] at hsep
  cases hsep

/-- Behind a hidden frame that is awaited no other one stands. -/
theorem Awaited.of_first {before : List (Padded config)} {p : Padded config}
    {after : List (Padded config)} (ha : p.Awaited after) (hbefore : ∀ q ∈ before, ¬ q.Hidden)
    {before' : List (Padded config)} {q : Padded config} {after' : List (Padded config)}
    (hsplit : before ++ p :: after = before' ++ q :: after') (hq : q.Hidden) :
    q.Awaited after' := by
  rcases List.append_eq_append_iff.1 hsplit with ⟨between, rfl, hrest⟩ | ⟨between, rfl, hrest⟩
  · cases between with
    | nil =>
      obtain ⟨rfl, rfl⟩ := List.cons.inj hrest
      exact ha
    | cons p' between =>
      obtain ⟨rfl, rfl⟩ := List.cons.inj hrest
      -- the blanks in front of the second frame are not what an awaited method may hold
      obtain ⟨b, tail, hb⟩ := List.exists_cons_of_ne_nil hq.2
      have hmem : b ∈ p.message.bytes ++ (between ++ q :: after').flatMap bytes := by
        simp [bytes, hb]
      have hsep := q.isSeparator b (by simp [hb])
      rw [ha.1 b hmem] at hsep
      cases hsep
  · cases between with
    | nil =>
      obtain ⟨rfl, rfl⟩ := List.cons.inj hrest
      exact ha
    | cons q' between =>
      obtain ⟨rfl, rfl⟩ := List.cons.inj hrest
      exact absurd hq (hbefore q (by simp))

theorem Hidden.exists_marker {p : Padded config} (h : p.Hidden) :
    ∃ tail, p.message.bytes = Frame.marker :: tail := by
  cases hm : p.message with
  | request text whole =>
    have hnone := h.1
    rw [hm] at hnone
    cases hnone
  | frame channel high low payload whole => exact ⟨_, rfl⟩

/-- A hidden frame does not start a frame. -/
theorem Hidden.starts_eq_false {p : Padded config} (h : p.Hidden) (rest : Bytes) :
    Frame.starts (p.bytes ++ rest) = false := by
  obtain ⟨b, tail, hb⟩ := List.exists_cons_of_ne_nil h.2
  have hsep := p.isSeparator b (by simp [hb])
  simp only [bytes, hb, Frame.starts, List.cons_append, List.head?_cons, beq_eq_false_iff_ne, ne_eq,
    Option.some.injEq]
  rintro rfl
  exact absurd hsep (by decide)

end Padded

/-! ### What is read from a hidden frame -/

/-- Behind blanks a dollar sign is the start of a token that names no method. -/
theorem Method.read_marker {limits : Limits} {blanks tail : Bytes}
    (hblanks : ∀ b ∈ blanks, isSeparator b) :
    let input := blanks ++ Frame.marker :: tail
    let waits := (∀ b ∈ Frame.marker :: tail, isSeparator b = false) ∧
      input.length ≤ limits.method.toNat
    (waits → Method.read limits input = .needMore) ∧
      (¬ waits → ∃ e, Method.read limits input = .failed e) := by
  intro input waits
  have hdrop : input.dropWhile isSeparator = Frame.marker :: tail :=
    Text.dropWhile_run hblanks (by simp; decide)
  have hwaits : Method.read limits input = .needMore ↔ waits := by
    rw [Method.read, Reading.check_eq_needMore, scanToken_eq_needMore_iff, hdrop,
      List.dropWhile_eq_nil_iff]
    simp only [Bool.not_eq_eq_eq_not, Bool.not_true, waits]
  refine ⟨hwaits.2, ?_⟩
  intro h
  cases hread : Method.read limits input with
  | needMore => exact absurd (hwaits.1 hread) h
  | failed e => exact ⟨e, rfl⟩
  | complete m n =>
    obtain ⟨lead, token, sep, rest, hinput, hlead, hnames, -⟩ :=
      Method.read_eq_complete_iff.1 hread
    obtain ⟨b, name, rfl⟩ := List.exists_cons_of_ne_nil hnames.ne_nil
    have htoken : input.dropWhile isSeparator = b :: name ++ sep :: rest := by
      rw [hinput, List.append_assoc]
      exact Text.dropWhile_run hlead (by simpa using hnames.not_isSeparator b List.mem_cons_self)
    have hb : Frame.marker = b := (List.cons.inj (hdrop.symm.trans htoken)).1
    exact absurd (by simp [hb]) hnames.marker_notMem

theorem Padded.Hidden.read {p : Padded config} (h : p.Hidden) (after : List (Padded config)) :
    let input := p.bytes ++ after.flatMap bytes
    (p.Awaited after → Method.read config.limits input = .needMore) ∧
      (¬ p.Awaited after → ∃ e, Method.read config.limits input = .failed e) := by
  intro input
  obtain ⟨tail, htail⟩ := h.exists_marker
  have hinput : input = p.blanks ++ Frame.marker :: (tail ++ after.flatMap bytes) := by
    simp only [input, bytes, htail, List.append_assoc, List.cons_append]
  have hawaited : p.Awaited after ↔
      (∀ b ∈ Frame.marker :: (tail ++ after.flatMap bytes), Octet.isSeparator b = false) ∧
        input.length ≤ config.limits.method.toNat := by
    rw [Awaited, htail, List.cons_append]
  rw [hawaited, hinput]
  exact Method.read_marker p.isSeparator

namespace Connection

variable {γ : Type}

theorem look_hidden {p : Padded config} (h : p.Hidden) (after : List (Padded config)) :
    let seen := look config (p.bytes ++ after.flatMap Padded.bytes)
    (p.Awaited after → seen.1.stage = .method) ∧
      (¬ p.Awaited after → ∃ e, seen.1.stage = .failed e) := by
  intro seen
  obtain ⟨hwaits, hfails⟩ := h.read after
  have hstep : ({ limits := config.limits } : Parser).step (.blank config.headerCapacity)
      (p.bytes ++ after.flatMap Padded.bytes) = Parser.store
        (Method.read config.limits (p.bytes ++ after.flatMap Padded.bytes)) _ _ _ := rfl
  constructor
  · intro ha
    rw [hwaits ha] at hstep
    exact congrArg (fun seen => seen.1.stage) (Parser.run_of_needMore hstep)
  · intro ha
    obtain ⟨e, he⟩ := hfails ha
    rw [he] at hstep
    exact ⟨e, congrArg (fun seen => seen.1.stage) (Parser.run_of_failed hstep)⟩

/-! ### What is seen from outside -/

/-- What reads come to: the state of the controller, the link with all that was written to it
and sent from it, and whether and why the connection is closed. -/
def outcome (controller : Controller γ) (c : Connection γ) (reads : List Bytes) :
    γ × Link × Option CloseReason :=
  let d := c.receiveAll controller reads
  (d.controllerState, d.link, d.closed)

/-- Neither the client nor the controller can tell the two sequences of reads apart. -/
structure SameOutside (controller : Controller γ) (c : Connection γ) (reads other : List Bytes) :
    Prop where
  outcome : c.outcome controller reads = c.outcome controller other
  calls : c.calls controller reads = c.calls controller other

section Outside

variable {peer : Endpoint} {link : Link} {reads other : List Bytes}

theorem outcome_single_read (controller : Controller γ) (s : γ) (bytes : Bytes) :
    (opened config peer s link).outcome controller [bytes] =
      let d := ((opened config peer s link).extend bytes).process controller
      (d.controllerState, d.link, d.closed) :=
  rfl

/-- A controller that notes its calls is one controller more. -/
theorem sameOutside_of_outcome (controller : Controller γ) (s : γ)
    (h : ∀ {δ : Type} (controller : Controller δ) (s : δ),
      (opened config peer s link).outcome controller reads =
        (opened config peer s link).outcome controller other) :
    SameOutside controller (opened config peer s link) reads other where
  outcome := h controller s
  calls := congrArg (fun outcome => outcome.1.2) (h controller.traced (s, []))

theorem SameOutside.trans {controller : Controller γ} {c : Connection γ} {third : List Bytes}
    (h : SameOutside controller c reads other) (h' : SameOutside controller c other third) :
    SameOutside controller c reads third :=
  ⟨h.outcome.trans h'.outcome, h.calls.trans h'.calls⟩

theorem SameOutside.symm {controller : Controller γ} {c : Connection γ}
    (h : SameOutside controller c reads other) : SameOutside controller c other reads :=
  ⟨h.outcome.symm, h.calls.symm⟩

/-- How a stream is cut into reads is not seen. -/
theorem sameOutside_flatten (controller : Controller γ) (s : γ)
    (hcut : reads.length = 1 ∨ config.limits.NoWrap) :
    SameOutside controller (opened config peer s link) reads [reads.flatten] := by
  rcases hcut with hlength | hl
  · obtain ⟨bytes, rfl⟩ := List.length_eq_one_iff.1 hlength
    rw [List.flatten_singleton]
    exact ⟨rfl, rfl⟩
  · apply sameOutside_of_outcome
    intro δ controller s
    have hagrees := receiveAll_opened_agrees controller hl peer s link reads
    exact Prod.ext hagrees.state (Prod.ext hagrees.link hagrees.closed)

/-- Only the requests among whole messages are seen, whatever the sink does. -/
theorem sameOutside_of_requests (controller : Controller γ) (s : γ)
    {messages more : List (Message config)}
    (h : messages.filterMap Message.request? = more.filterMap Message.request?) :
    SameOutside controller (opened config peer s link) [messages.flatMap Message.bytes]
      [more.flatMap Message.bytes] := by
  apply sameOutside_of_outcome
  intro δ controller s
  have hserves (messages : List (Message config)) :
      (opened config peer s link).outcome controller [messages.flatMap Message.bytes] =
        controller.serveAll peer (messages.filterMap Message.request?) s link :=
    process_messages_serveAll controller (c := (opened config peer s link).extend _)
      ⟨rfl, rfl, rfl⟩ messages rfl
  rw [hserves, hserves, h]

/-- Where no frame is hidden the blanks are not seen. -/
theorem sameOutside_of_not_hidden (controller : Controller γ) (s : γ)
    {messages : List (Padded config)} (h : ∀ p ∈ messages, ¬ p.Hidden) :
    SameOutside controller (opened config peer s link) [messages.flatMap Padded.bytes]
      [(messages.map Padded.message).flatMap Message.bytes] := by
  obtain ⟨absorbed, hbytes, hrequests⟩ := Padded.exists_messages h
  rw [← hbytes]
  exact sameOutside_of_requests controller s hrequests

theorem outcome_messages (controller : Controller γ) (s : γ)
    (hlink : link.connection.behaviour.Reliable) (messages : List (Message config)) :
    (opened config peer s link).outcome controller [messages.flatMap Message.bytes] =
      let served := controller.dispatchAll peer (messages.filterMap Message.request?) (s, link)
      (served.1, served.2, none) := by
  have hready : ((opened config peer s link).extend
      (messages.flatMap Message.bytes)).Ready config := ⟨⟨rfl, rfl, rfl⟩, hlink⟩
  obtain ⟨hr, -, hstate⟩ := process_messages controller hready messages rfl
  obtain ⟨hstate, hafter⟩ := Prod.mk.inj hstate
  exact Prod.ext hstate (Prod.ext hafter hr.closed)

/-- A hidden frame that is awaited leaves the connection where the messages before it did. -/
theorem outcome_of_awaited (controller : Controller γ) (s : γ)
    (hlink : link.connection.behaviour.Reliable) (messages : List (Message config))
    {p : Padded config} {after : List (Padded config)} (hp : p.Hidden) (ha : p.Awaited after) :
    (opened config peer s link).outcome controller
        [messages.flatMap Message.bytes ++ (p.bytes ++ after.flatMap Padded.bytes)] =
      let served := controller.dispatchAll peer (messages.filterMap Message.request?) (s, link)
      (served.1, served.2, none) := by
  have hready : ((opened config peer s link).extend (messages.flatMap Message.bytes ++
      (p.bytes ++ after.flatMap Padded.bytes))).Ready config := ⟨⟨rfl, rfl, rfl⟩, hlink⟩
  obtain ⟨d, hsame, hd, hbuffer, hstate⟩ := process_messages_append controller hready messages rfl
  have hf : d.front = .request := by
    rw [front_eq_request_iff, hbuffer, hp.starts_eq_false]
    simp
  have hwaits : d.read.parser.stage.isTerminal = false := by
    rw [hd.toAtStart.parser_read, hbuffer, (look_hidden hp after).1 ha]
    rfl
  obtain ⟨hstate, hafter⟩ := Prod.mk.inj hstate
  have hprocess := hsame.trans (process_of_rest (turn_of_waiting hf hwaits))
  rw [outcome_single_read, hprocess]
  exact Prod.ext hstate (Prod.ext hafter hd.closed)

/-- A hidden frame that is not awaited closes the connection. -/
theorem closed_of_hidden (controller : Controller γ) (s : γ)
    (hlink : link.connection.behaviour.Reliable) (messages : List (Message config))
    {p : Padded config} {after : List (Padded config)} (hp : p.Hidden) (ha : ¬ p.Awaited after) :
    ((opened config peer s link).outcome controller
      [messages.flatMap Message.bytes ++ (p.bytes ++ after.flatMap Padded.bytes)]).2.2 =
        some .malformedRequest := by
  obtain ⟨e, he⟩ := (look_hidden hp after).2 ha
  exact closed_of_fault controller peer s hlink messages (hp.starts_eq_false _)
    (Parser.result_eq_error_iff.2 he)

/-- In one read, blanks are not seen, or some hidden frame is not awaited and closes the
connection. -/
theorem sameOutside_or_closed (controller : Controller γ) (peer : Endpoint) (s : γ)
    (hlink : link.connection.behaviour.Reliable) (messages : List (Padded config)) :
    let c := opened config peer s link
    let stream := messages.flatMap Padded.bytes
    let plain := (messages.map Padded.message).flatMap Message.bytes
    let unseen := ∀ before p after, messages = before ++ p :: after → p.Hidden → p.Awaited after
    (unseen → SameOutside controller c [stream] [plain]) ∧
      (¬ unseen → (c.outcome controller [stream]).2.2 = some .malformedRequest) := by
  intro c stream plain unseen
  by_cases hall : ∀ p ∈ messages, ¬ p.Hidden
  · refine ⟨fun _ => sameOutside_of_not_hidden controller s hall, fun hseen => absurd ?_ hseen⟩
    rintro before p after rfl hp
    exact absurd hp (hall p (by simp))
  · obtain ⟨before, p, after, rfl, hbefore, hp⟩ := Padded.exists_first_hidden hall
    obtain ⟨absorbed, hbytes, hrequests⟩ := Padded.exists_messages hbefore
    have hstream : stream =
        absorbed.flatMap Message.bytes ++ (p.bytes ++ after.flatMap Padded.bytes) := by
      simp only [stream, hbytes, List.flatMap_append, List.flatMap_cons]
    rw [hstream]
    constructor
    · intro h
      have ha := h before p after rfl hp
      apply sameOutside_of_outcome
      intro δ controller s
      rw [outcome_of_awaited controller s hlink absorbed hp ha,
        outcome_messages controller s hlink, List.map_append, List.filterMap_append,
        ha.requests_eq_nil, List.append_nil, hrequests]
    · intro hseen
      refine closed_of_hidden controller s hlink absorbed hp ?_
      intro ha
      exact hseen fun before' q after' hsplit hq => ha.of_first hbefore hsplit hq

end Outside

/-- Blanks between messages are seen exactly where they hide a frame. In front of requests
they make no difference to what is written, to the calls of the controller, or to the end of
the connection, whatever its sink does. Where the sink never fails, the messages alone leave
the connection open, and so do the messages with their blanks if every hidden frame is all
that comes and may still be the start of a method. Otherwise the connection is closed over a
malformed request. -/
theorem receiveAll_padded_sameOutside (controller : Controller γ) (peer : Endpoint) (s : γ)
    (link : Link) (messages : List (Padded config)) {reads plain : List Bytes}
    (hreads : reads.flatten = messages.flatMap Padded.bytes)
    (hplain : plain.flatten = (messages.map Padded.message).flatMap Message.bytes)
    (hcut : reads.length = 1 ∧ plain.length = 1 ∨ config.limits.NoWrap) :
    let c := opened config peer s link
    ((∀ p ∈ messages, ¬ p.Hidden) → SameOutside controller c reads plain) ∧
    (link.connection.behaviour.Reliable →
      (c.receiveAll controller plain).closed = none ∧
      (SameOutside controller c reads plain ↔
        ∀ before p after, messages = before ++ p :: after → p.Hidden → p.Awaited after) ∧
      (¬ SameOutside controller c reads plain →
        (c.receiveAll controller reads).closed = some .malformedRequest)) := by
  intro c
  have hr : SameOutside controller c reads [messages.flatMap Padded.bytes] := by
    rw [← hreads]
    exact sameOutside_flatten controller s (hcut.imp_left And.left)
  have hp : SameOutside controller c plain
      [(messages.map Padded.message).flatMap Message.bytes] := by
    rw [← hplain]
    exact sameOutside_flatten controller s (hcut.imp_left And.right)
  constructor
  · intro hall
    exact hr.trans ((sameOutside_of_not_hidden controller s hall).trans hp.symm)
  · intro hlink
    obtain ⟨hunseen, hseen⟩ := sameOutside_or_closed controller peer s hlink messages
    have hopen : (c.outcome controller plain).2.2 = none := by
      rw [hp.outcome, outcome_messages controller s hlink]
    have hclosed : (c.outcome controller reads).2.2 =
        (c.outcome controller [messages.flatMap Padded.bytes]).2.2 := by rw [hr.outcome]
    refine ⟨hopen, ⟨?_, fun h => hr.trans ((hunseen h).trans hp.symm)⟩, ?_⟩
    · intro hsame
      by_contra hnot
      have hbad := hclosed.trans (hseen hnot)
      rw [hsame.outcome, hopen] at hbad
      cases hbad
    · intro hdiffers
      refine hclosed.trans (hseen ?_)
      exact fun h => hdiffers (hr.trans ((hunseen h).trans hp.symm))

/-- A line break and a blank in front of requests, with a frame between these, cut inside the
frame. -/
theorem receiveAll_padded_requests_sameOutside :
    let options : Message {} :=
      .request (Text.utf8 "OPTIONS * RTSP/1.0\r\nCSeq: 2\r\n\r\n") (by decide +kernel)
    let play : Message {} :=
      .request (Text.utf8 "PLAY * RTSP/1.0\r\nCSeq: 3\r\n\r\n") (by decide +kernel)
    let messages : List (Padded {}) :=
      [⟨crlf, options, by decide +kernel, by decide +kernel⟩,
        ⟨[], .frame 1 0 1 [1] rfl, by decide +kernel, by decide +kernel⟩,
        ⟨[space], play, by decide +kernel, by decide +kernel⟩]
    let stream := messages.flatMap Padded.bytes
    let plain := (messages.map Padded.message).flatMap Message.bytes
    let controller := Script.controller fun _ => [.respond 200 "OK"]
    let c : Connection Notes := opened {} ⟨.v4 127 0 0 1, 554, 0⟩ [] {}
    ({} : ServerConfig).limits.NoWrap ∧ Behaviour.accepting.Reliable ∧
      (∀ p ∈ messages, ¬ p.Hidden) ∧
      SameOutside controller c [stream.take 36, stream.drop 36] [plain] ∧
      (c.receiveAll controller [plain]).closed = none := by
  intro options play messages stream plain controller c
  have hl : ({} : ServerConfig).limits.NoWrap := by decide
  have hall : ∀ p ∈ messages, ¬ p.Hidden := by
    intro p hp
    simp only [messages, List.mem_cons, List.not_mem_nil, or_false] at hp
    rcases hp with rfl | rfl | rfl
    · exact fun h => Option.some_ne_none _ h.1
    · exact fun h => h.2 rfl
    · exact fun h => Option.some_ne_none _ h.1
  have hreads : [stream.take 36, stream.drop 36].flatten = stream := by
    rw [List.flatten_cons, List.flatten_singleton, List.take_append_drop]
  obtain ⟨hsame, hiff⟩ := receiveAll_padded_sameOutside controller ⟨.v4 127 0 0 1, 554, 0⟩ [] {}
    messages hreads List.flatten_singleton (.inr hl)
  have hreliable := Behaviour.reliable_accepting
  exact ⟨hl, hreliable, hall, hsame hall, (hiff hreliable).1⟩

/-- A line break in front of a frame: the frame is refused as a malformed request, and the
request behind it, which is answered where the line break is missing, never is. -/
theorem line_break_closes_before_frame :
    let options : Message {} :=
      .request (Text.utf8 "OPTIONS * RTSP/1.0\r\nCSeq: 2\r\n\r\n") (by decide +kernel)
    let play : Message {} :=
      .request (Text.utf8 "PLAY * RTSP/1.0\r\nCSeq: 3\r\n\r\n") (by decide +kernel)
    let messages : List (Padded {}) :=
      [⟨[], options, by decide +kernel, by decide +kernel⟩,
        ⟨crlf, .frame 1 0 1 [1] rfl, by decide +kernel, by decide +kernel⟩,
        ⟨[], play, by decide +kernel, by decide +kernel⟩]
    let controller := Script.controller fun _ => [.respond 200 "OK"]
    let c : Connection Notes := opened {} ⟨.v4 127 0 0 1, 554, 0⟩ [] {}
    let padded := c.receiveAll controller [messages.flatMap Padded.bytes]
    let plain :=
      c.receiveAll controller [(messages.map Padded.message).flatMap Message.bytes]
    plain.closed = none ∧ padded.closed = some .malformedRequest ∧
      padded.link.connection.taken ≠ plain.link.connection.taken := by
  decide +kernel

end Connection

end RealTimeStreaming
