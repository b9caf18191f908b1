import RealTimeStreaming.Proofs.Text.Parts
import RealTimeStreaming.Session.Handler

/-! What a handler does to an exchange, act by act. A response closes a batch of acts: it takes the
headers and the body of its own batch, and the next batch starts with nothing staged, whether the
response could be written or not. So the writes of a whole history can be read off its batches. -/

namespace RealTimeStreaming

/-- One thing that is done to an exchange. -/
inductive Act where
  | header (name value : String)
  | body (content : Bytes)
  | respond (status : UInt16) (reason : String)
  | sendFrame (channel : UInt8) (payload : Bytes)
deriving DecidableEq, Repr

namespace Act

def run : Act → Exchange → Exchange
  | .header name value, x => x.stageHeader name value
  | .body content, x => x.stageBody content
  | .respond status reason, x => (x.respond status reason).2
  | .sendFrame channel payload, x => (x.sendFrame channel payload).2

def header? : Act → Option (String × String)
  | .header name value => some (name, value)
  | _ => none

def body? : Act → Option Bytes
  | .body content => some content
  | _ => none

/-- The status and reason of a response. -/
def answer? : Act → Option (UInt16 × String)
  | .respond status reason => some (status, reason)
  | _ => none

/-- The bytes of a frame, if its length can be announced. -/
def frame? : Act → Option Bytes
  | .sendFrame channel payload => (Frame.encode channel payload).toOption
  | _ => none

def isResponse (act : Act) : Bool :=
  act.answer?.isSome

/-- What acts stage, in order. -/
def headers (acts : List Act) : List (String × String) :=
  acts.filterMap header?

/-- What acts stage last. -/
def lastBody (acts : List Act) : Option Bytes :=
  (acts.filterMap body?).getLast?

def frames (acts : List Act) : List Bytes :=
  acts.filterMap frame?

theorem filterMap_cons_eq {α : Type} (f : Act → Option α) (act : Act) (acts : List Act) :
    (act :: acts).filterMap f = (f act).toList ++ acts.filterMap f := by
  rw [List.filterMap_cons]
  cases f act <;> rfl

theorem headers_cons (act : Act) (acts : List Act) :
    headers (act :: acts) = act.header?.toList ++ headers acts :=
  filterMap_cons_eq header? act acts

theorem headers_append (acts more : List Act) :
    headers (acts ++ more) = headers acts ++ headers more :=
  List.filterMap_append

theorem frames_cons (act : Act) (acts : List Act) :
    frames (act :: acts) = act.frame?.toList ++ frames acts :=
  filterMap_cons_eq frame? act acts

theorem lastBody_cons (act : Act) (acts : List Act) :
    lastBody (act :: acts) = (lastBody acts).or act.body? := by
  rw [lastBody, filterMap_cons_eq, List.getLast?_append, lastBody]
  cases act.body? <;> rfl

end Act

/-- Does one act after the other. -/
def Exchange.performAll (x : Exchange) (acts : List Act) : Exchange :=
  acts.foldl (fun x act => act.run x) x

namespace Exchange

@[simp] theorem performAll_nil (x : Exchange) : x.performAll [] = x := rfl

@[simp] theorem performAll_cons (x : Exchange) (act : Act) (acts : List Act) :
    x.performAll (act :: acts) = (act.run x).performAll acts := rfl

theorem performAll_append (x : Exchange) (acts more : List Act) :
    x.performAll (acts ++ more) = (x.performAll acts).performAll more :=
  List.foldl_append

end Exchange

/-! ### Acts of a handler -/

namespace Handler

/-- What a handler does to an exchange, in order. -/
def acts {α : Type} : Handler α → Exchange → List Act
  | .done _, _ => []
  | .header name value next, x =>
    .header name value :: next.acts (x.stageHeader name value)
  | .body content next, x => .body content :: next.acts (x.stageBody content)
  | .respond status reason next, x =>
    let (result, y) := x.respond status reason
    .respond status reason :: (next result).acts y
  | .sendFrame channel payload next, x =>
    let (result, y) := x.sendFrame channel payload
    .sendFrame channel payload :: (next result).acts y
  | .look next, x => (next x.view).acts x
  | .start _ next, x => next.acts x

/-- A handler changes an exchange by its acts only. -/
theorem run_eq_performAll {α : Type} (h : Handler α) (x : Exchange) :
    (h.run x).2 = x.performAll (h.acts x) := by
  induction h generalizing x with
  | done value => rfl
  | header name value next ih => exact ih _
  | body content next ih => exact ih _
  | respond status reason next ih => exact ih _ _
  | sendFrame channel payload next ih => exact ih _ _
  | look next ih => exact ih _ _
  | start stream next ih => exact ih _

/-- All that a bare handler does to an exchange is to send frames. -/
theorem Bare.exists_sendFrame {α : Type} {h : Handler α} (hbare : h.Bare) (x : Exchange) :
    ∀ act ∈ h.acts x, ∃ channel payload, act = .sendFrame channel payload := by
  induction h generalizing x with
  | done value => simp [acts]
  | header => exact hbare.elim
  | body => exact hbare.elim
  | respond => exact hbare.elim
  | sendFrame channel payload next ih =>
    exact List.forall_mem_cons.2 ⟨⟨channel, payload, rfl⟩, ih _ (hbare _) _⟩
  | look next ih => exact ih _ (hbare _) x
  | start stream next ih => exact ih hbare x

end Handler

/-! ### Batches -/

namespace Act

/-- The bytes of a response with what a batch has staged: the status line, the header lines of the
server, of the sequence number and of the batch, the length of the body if there is one, an
empty line, and the body. -/
def message (cseq : UInt32) (batch : List Act) (status : UInt16) (reason : String) : Bytes :=
  let lines :=
    s!"RTSP/1.0 {status} {reason}\r\n" :: "Server: rtsp-wire/0.1\r\n" :: s!"CSeq: {cseq}\r\n" ::
      (headers batch).map fun (name, value) => s!"{name}: {value}\r\n"
  let lengthLine := (lastBody batch).map fun content => s!"Content-Length: {content.length}\r\n"
  Text.utf8 (String.join (lines ++ lengthLine.toList ++ ["\r\n"])) ++ (lastBody batch).getD []

/-- What is written of a batch: its frames, and the response that closes it, if one does. -/
def batchWrites (cseq : UInt32) (batch : List Act) (answer : Option (UInt16 × String)) :
    List Bytes :=
  frames batch ++ (answer.map fun (status, reason) =>
    message cseq batch status reason).toList

/-- The acts between responses: one batch in front of each, and one behind the last. -/
def batches (acts : List Act) : List (List Act) :=
  acts.splitOnP isResponse

/-- The acts behind the last response. -/
def openBatch (acts : List Act) : List Act :=
  (batches acts).getLast?.getD []

/-- The messages that acts write to the connection, in order. -/
def writes (cseq : UInt32) (acts : List Act) : List Bytes :=
  (List.zipWith (batchWrites cseq) (batches acts)
    ((acts.filterMap answer?).map some ++ [none])).flatten

/-- A history is one open batch, or starts with a batch and the response that closes it. -/
@[elab_as_elim]
theorem batch_induction {motive : List Act → Prop}
    (last : ∀ batch, (∀ act ∈ batch, act.isResponse = false) → motive batch)
    (closed : ∀ batch status reason later, (∀ act ∈ batch, act.isResponse = false) →
      motive later → motive (batch ++ .respond status reason :: later))
    (acts : List Act) : motive acts := by
  induction hn : acts.length using Nat.strongRecOn generalizing acts with
  | ind n ih =>
    have hbatch : ∀ act ∈ acts.takeWhile (!·.isResponse), act.isResponse = false :=
      fun act hm => by simpa using Text.of_mem_takeWhile hm
    have hsplit := List.takeWhile_append_dropWhile (p := (!·.isResponse)) (l := acts)
    cases hrest : acts.dropWhile (!·.isResponse) with
    | nil =>
      rw [hrest, List.append_nil] at hsplit
      rw [← hsplit]
      exact last _ hbatch
    | cons act later =>
      have hact := Text.of_mem_head?_dropWhile (p := (!·.isResponse)) (l := acts) (a := act)
        (by rw [hrest]; rfl)
      rw [hrest] at hsplit
      rw [← hsplit, List.length_append, List.length_cons] at hn
      rw [← hsplit]
      cases act with
      | respond status reason =>
        exact closed _ _ _ _ hbatch (ih later.length (by omega) later rfl)
      | _ => cases hact

section Lists

variable {batch : List Act}

theorem batches_of_open (h : ∀ act ∈ batch, act.isResponse = false) : batches batch = [batch] :=
  List.splitOnP_eq_singleton h

theorem batches_of_closed (h : ∀ act ∈ batch, act.isResponse = false) (status : UInt16)
    (reason : String) (later : List Act) :
    batches (batch ++ .respond status reason :: later) = batch :: batches later :=
  List.splitOnP_append_cons_of_forall_mem h _ rfl _

theorem openBatch_of_open (h : ∀ act ∈ batch, act.isResponse = false) :
    openBatch batch = batch := by
  rw [openBatch, batches_of_open h]
  rfl

theorem openBatch_of_closed (h : ∀ act ∈ batch, act.isResponse = false) (status : UInt16)
    (reason : String) (later : List Act) :
    openBatch (batch ++ .respond status reason :: later) = openBatch later := by
  have hne : batches later ≠ [] := List.splitOnP_ne_nil _ _
  rw [openBatch, batches_of_closed h, List.getLast?_cons_of_ne_nil hne, openBatch]

theorem answers_of_open (h : ∀ act ∈ batch, act.isResponse = false) :
    batch.filterMap answer? = [] :=
  List.filterMap_eq_nil_iff.2 fun act hm =>
    Option.isNone_iff_eq_none.1 (Option.isSome_eq_false_iff.1 (h act hm))

theorem writes_of_open (h : ∀ act ∈ batch, act.isResponse = false) (cseq : UInt32) :
    writes cseq batch = frames batch := by
  simp [writes, batches_of_open h, answers_of_open h, batchWrites]

theorem writes_of_closed (h : ∀ act ∈ batch, act.isResponse = false) (cseq : UInt32)
    (status : UInt16) (reason : String) (later : List Act) :
    writes cseq (batch ++ .respond status reason :: later) =
      frames batch ++ message cseq batch status reason :: writes cseq later := by
  simp [writes, batches_of_closed h, answers_of_open h, batchWrites, answer?]

end Lists

/-- A response divides a history: its message is made of the batch in front of it, and what is
written later depends on later acts only. -/
theorem writes_append_respond (cseq : UInt32) (acts : List Act) (status : UInt16)
    (reason : String) (later : List Act) :
    writes cseq (acts ++ .respond status reason :: later) =
      writes cseq acts ++ message cseq (openBatch acts) status reason :: writes cseq later := by
  induction acts using batch_induction with
  | last batch h => rw [writes_of_closed h, writes_of_open h, openBatch_of_open h]
  | closed batch status' reason' rest h ih =>
    rw [List.append_assoc, List.cons_append, writes_of_closed h, ih, writes_of_closed h,
      openBatch_of_closed h, List.append_assoc, List.cons_append]

/-- A header goes into the next response, and not into the one after it. -/
example : writes 3 [.header "Public" "PLAY", .respond 200 "OK", .respond 404 "Not Found"] =
    [Text.utf8 "RTSP/1.0 200 OK\r\nServer: rtsp-wire/0.1\r\nCSeq: 3\r\nPublic: PLAY\r\n\r\n",
      Text.utf8 "RTSP/1.0 404 Not Found\r\nServer: rtsp-wire/0.1\r\nCSeq: 3\r\n\r\n"] := by
  decide +kernel

/-- Every header is staged in one batch, and the batches keep the order. -/
theorem headers_eq_flatMap_batches (acts : List Act) :
    headers acts = (batches acts).flatMap headers := by
  induction acts using batch_induction with
  | last batch h => rw [batches_of_open h, List.flatMap_singleton]
  | closed batch status reason later h ih =>
    have hrespond : headers (.respond status reason :: later) = headers later := rfl
    rw [headers_append, hrespond, ih, batches_of_closed h, List.flatMap_cons]

end Act

/-! ### What the connection gets -/

namespace Sink

/-- Writes messages one after the other, whatever becomes of each. -/
def writeEach (s : Sink) (messages : List Bytes) : Sink :=
  messages.foldl (fun s message => (s.write message).2) s

theorem writeEach_append (s : Sink) (messages more : List Bytes) :
    s.writeEach (messages ++ more) = (s.writeEach messages).writeEach more :=
  List.foldl_append

theorem sendFrame_eq_writeEach (s : Sink) (channel : UInt8) (payload : Bytes) :
    (s.sendFrame channel payload).2 =
      s.writeEach (Frame.encode channel payload).toOption.toList := by
  cases h : Frame.encode channel payload with
  | error e => rw [sendFrame, h]; rfl
  | ok frame => rw [sendFrame_of_encode h]; rfl

end Sink

namespace Exchange

variable {batch : List Act}

/-- A response is written with what is staged, and leaves nothing staged, also if it fails. -/
theorem respond_eq (x : Exchange) (status : UInt16) (reason : String) :
    let message := (x.response status reason).encode
    let written := x.link.connection.write message
    x.respond status reason =
      ((written.1.map fun _ => message.length).mapError .io,
        { x with
          link := { x.link with connection := written.2 }
          staged := []
          body := none
          outcome := some ((written.1.map fun _ => message.length).mapError IoError.kind) }) := by
  simp only [respond]
  split <;> rename_i hresult <;> simp only [hresult] <;> rfl

/-- An act that is no response may write a frame, and what it stages it puts behind the rest. -/
theorem run_of_open {act : Act} (h : act.isResponse = false) (x : Exchange) :
    act.run x =
      { x with
        link := { x.link with connection := x.link.connection.writeEach act.frame?.toList }
        staged := x.staged ++ act.header?.toList
        body := act.body?.or x.body } := by
  cases act with
  | header name value => simp [Act.run, stageHeader, Act.header?, Act.body?, Act.frame?]; rfl
  | body content => simp [Act.run, stageBody, Act.header?, Act.body?, Act.frame?]; rfl
  | respond status reason => cases h
  | sendFrame channel payload =>
    simp [Act.run, sendFrame, Act.header?, Act.body?, Act.frame?, Sink.sendFrame_eq_writeEach]

theorem performAll_of_open (h : ∀ act ∈ batch, act.isResponse = false) (x : Exchange) :
    x.performAll batch =
      { x with
        link := { x.link with connection := x.link.connection.writeEach (Act.frames batch) }
        staged := x.staged ++ Act.headers batch
        body := (Act.lastBody batch).or x.body } := by
  induction batch generalizing x with
  | nil => simp [Act.headers, Act.lastBody, Act.frames, Sink.writeEach]
  | cons act batch ih =>
    rw [performAll_cons, ih (fun a hm => h a (List.mem_cons_of_mem act hm)),
      run_of_open (h act List.mem_cons_self), Act.frames_cons, Sink.writeEach_append,
      Act.headers_cons, Act.lastBody_cons, Option.or_assoc, List.append_assoc]

/-- The response that an exchange writes after a batch, when nothing was staged before it. -/
theorem encode_response {x : Exchange} (hs : x.staged = Act.headers batch)
    (hb : x.body = Act.lastBody batch) (status : UInt16) (reason : String) :
    (x.response status reason).encode = Act.message x.cseq batch status reason := by
  have server : Response.headerLine "Server" Response.agent = "Server: rtsp-wire/0.1\r\n" := by
    decide
  have first : (x.response status reason).statusLine = s!"RTSP/1.0 {status} {reason}\r\n" := rfl
  have lines : (x.response status reason).headerLines =
      "Server: rtsp-wire/0.1\r\n" :: s!"CSeq: {x.cseq}\r\n" ::
        (Act.headers batch).map (fun (name, value) => s!"{name}: {value}\r\n") ++
      ((Act.lastBody batch).map fun content =>
        s!"Content-Length: {content.length}\r\n").toList := by
    rw [← server, ← hs, ← hb]
    cases hbody : x.body <;> simp only [Response.headerLines, response, hbody] <;> rfl
  have hbody : (x.response status reason).body = Act.lastBody batch := hb
  have joined (line : String) (rest : List String) :
      line ++ String.join rest ++ Response.lineEnd = String.join (line :: rest ++ ["\r\n"]) := by
    simp [Response.lineEnd, String.append_assoc]
  rw [Response.encode, first, lines, hbody, joined]
  rfl

/-- What acts make of an exchange with nothing staged: the writes of their batches go to the
connection, and what is behind the last response is staged. -/
theorem performAll_eq_writes {x : Exchange} (hs : x.staged = []) (hb : x.body = none)
    (acts : List Act) :
    x.performAll acts =
      { x with
        link := { x.link with
          connection := x.link.connection.writeEach (Act.writes x.cseq acts) }
        staged := Act.headers (Act.openBatch acts)
        body := Act.lastBody (Act.openBatch acts)
        outcome := (x.performAll acts).outcome } := by
  induction acts using Act.batch_induction generalizing x with
  | last batch h =>
    rw [performAll_of_open h, Act.writes_of_open h, Act.openBatch_of_open h, hs, hb, Option.or_none,
      List.nil_append]
  | closed batch status reason later h ih =>
    have hbatch := performAll_of_open h x
    rw [hs, hb, Option.or_none, List.nil_append] at hbatch
    have hstaged : (x.performAll batch).staged = Act.headers batch := by rw [hbatch]
    have hbody : (x.performAll batch).body = Act.lastBody batch := by rw [hbatch]
    have hrespond := respond_eq (x.performAll batch) status reason
    rw [encode_response hstaged hbody, hbatch] at hrespond
    -- The response has left nothing staged, so the rest starts as the whole did.
    have hlater := ih (x := ((x.performAll batch).respond status reason).2)
      (by rw [hbatch, hrespond]) (by rw [hbatch, hrespond])
    rw [performAll_append, performAll_cons, Act.run, hlater, hbatch, hrespond,
      Act.writes_of_closed h, Act.openBatch_of_closed h, Sink.writeEach_append]
    rfl

/-- A response that follows acts is made of what is staged since the last one, and leaves an
exchange with nothing staged. -/
theorem respond_performAll {x : Exchange} (hs : x.staged = []) (hb : x.body = none)
    (acts : List Act) (status : UInt16) (reason : String) :
    let message := Act.message x.cseq (Act.openBatch acts) status reason
    let written := (x.link.connection.writeEach (Act.writes x.cseq acts)).write message
    (x.performAll acts).respond status reason =
      ((written.1.map fun _ => message.length).mapError .io,
        { x with
          link := { x.link with connection := written.2 }
          outcome := some ((written.1.map fun _ => message.length).mapError IoError.kind) }) := by
  generalize hy : x.performAll acts = y
  rw [performAll_eq_writes hs hb] at hy
  subst hy
  rw [respond_eq, encode_response rfl rfl]
  simp only [hs, hb]

/-- The acts of a fresh exchange write the messages of their batches. A response that follows them
takes exactly what was staged since the last response, whether that one could be written or not,
and leaves nothing staged. What is written after it depends on later acts only. -/
theorem responses_take_what_is_staged (peer : Endpoint) (cseq : UInt32) (link : Link)
    (acts later : List Act) (status : UInt16) (reason : String) :
    let start : Exchange := { peer, cseq, link }
    let x := start.performAll acts
    let message := Act.message cseq (Act.openBatch acts) status reason
    let before := link.connection.writeEach (Act.writes cseq acts)
    let written := before.write message
    x.link.connection = before ∧
    x.staged = Act.headers (Act.openBatch acts) ∧
    x.body = Act.lastBody (Act.openBatch acts) ∧
    x.respond status reason =
      ((written.1.map fun _ => message.length).mapError .io,
        { start with
          link := { link with connection := written.2 }
          outcome := some ((written.1.map fun _ => message.length).mapError IoError.kind) }) ∧
    Act.writes cseq (acts ++ .respond status reason :: later) =
      Act.writes cseq acts ++ message :: Act.writes cseq later ∧
    Act.headers acts = (Act.batches acts).flatMap Act.headers := by
  intro start x message before written
  have hx : x = _ := performAll_eq_writes rfl rfl acts
  exact ⟨by rw [hx], by rw [hx], by rw [hx], respond_performAll rfl rfl acts status reason,
    Act.writes_append_respond cseq acts status reason later, Act.headers_eq_flatMap_batches acts⟩

end Exchange

end RealTimeStreaming
