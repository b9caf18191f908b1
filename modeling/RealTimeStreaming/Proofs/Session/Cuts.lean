import RealTimeStreaming.Proofs.Request.Resumption
import RealTimeStreaming.Proofs.Session.Reads
import RealTimeStreaming.Proofs.Wire.Frames
import RealTimeStreaming.Session.Script

/-! How the stream is cut into reads makes no difference. Each choice that the input loop
makes at the front of the buffer is the same when more bytes stand behind, and where it
waits, it goes on later as it would have gone on at once. Only the request of a connection
that waits for the first byte of the next one may differ: it is blanked at the first look
and kept from the last request before. -/

namespace RealTimeStreaming

namespace Connection

variable {γ : Type} {controller : Controller γ} {c d : Connection γ}

/-- The connection with more bytes in its buffer. -/
def extend (c : Connection γ) (bytes : Bytes) : Connection γ :=
  { c with buffer := c.buffer ++ bytes }

theorem extend_extend (c : Connection γ) (a b : Bytes) :
    (c.extend a).extend b = c.extend (a ++ b) := by
  simp only [extend, List.append_assoc]

theorem receive_eq_process (h : c.closed = none) (bytes : Bytes) :
    c.receive controller bytes = (c.extend bytes).process controller :=
  receive_of_open h bytes

/-- What holds between two turns: the parser has not run past the buffer, and it is at the
start as long as it has not consumed anything. -/
structure InStep (c : Connection γ) : Prop where
  noWrap : c.parser.limits.NoWrap
  offset_le : c.parser.offset ≤ c.buffer.length
  at_start : c.parser.offset = 0 → c.parser.stage = .method

theorem inStep_opened {config : ServerConfig} (hl : config.limits.NoWrap) (peer : Endpoint)
    (s : γ) (link : Link) : (opened config peer s link).InStep :=
  ⟨hl, Nat.le_refl _, fun _ => rfl⟩

theorem InStep.extend (h : c.InStep) (bytes : Bytes) : (c.extend bytes).InStep := by
  refine ⟨h.noWrap, ?_, h.at_start⟩
  have ho := h.offset_le
  simp only [Connection.extend, List.length_append]
  omega

theorem InStep.read (h : c.InStep) (hs : c.read.parser.stage.isTerminal = false) :
    c.read.InStep := by
  refine ⟨?_, Parser.offset_parse_le h.offset_le _, ?_⟩
  · have hl := Parser.limits_run c.parser c.request (c.buffer.drop c.parser.offset)
    simp only [Connection.read, Parser.parse, hl]
    exact h.noWrap
  · intro ho
    have hle := Parser.offset_le_run c.parser c.request (c.buffer.drop c.parser.offset)
    simp only [Connection.read, Parser.parse] at ho
    have hstart := h.at_start (by omega)
    have hsame := Parser.run_of_offset_eq hstart _ (by omega) hs
    exact (congrArg Parser.stage hsame).trans hstart

/-! ### The choices of a turn -/

theorem front_extend_of_frame {n : Nat} (h : c.front = .frame n) (bytes : Bytes) :
    (c.extend bytes).front = .frame n := by
  unfold front at h ⊢
  split at h
  · rename_i hstart
    have hne : c.buffer ≠ [] := by
      rintro hnil
      rw [hnil] at hstart
      cases hstart.2
    have hstart' : c.parser.offset = 0 ∧ Frame.starts (c.buffer ++ bytes) :=
      ⟨hstart.1, by rw [Frame.starts_append hne]; exact hstart.2⟩
    rw [extend, if_pos hstart']
    split at h
    · cases h
    · rename_i channel length hheader
      rw [Frame.readHeader?_append hheader]
      dsimp only
      split at h
      · cases h
      · rename_i hle
        rw [if_neg (by rw [List.length_append]; omega)]
        exact h
  · cases h

theorem front_eq_request_iff :
    c.front = .request ↔ ¬ (c.parser.offset = 0 ∧ Frame.starts c.buffer) := by
  unfold front
  split
  · rename_i hstart
    constructor
    · intro h
      split at h
      · cases h
      · split at h <;> cases h
    · exact fun h => absurd hstart h
  · rename_i hstart
    exact ⟨fun _ => hstart, fun _ => rfl⟩

/-- A request that has begun goes on. -/
theorem front_extend_of_request (h : c.front = .request) (hne : c.buffer ≠ []) (bytes : Bytes) :
    (c.extend bytes).front = .request := by
  rw [front_eq_request_iff] at h ⊢
  simpa only [extend, Frame.starts_append hne] using h

/-- After the parser had to wait it goes on as if all bytes had been there at once. -/
theorem read_extend_read (hc : c.InStep) (bytes : Bytes) :
    (c.read.extend bytes).read = (c.extend bytes).read := by
  have hp := Parser.parse_parse_of_shorter (r := c.request) (.inl hc.noWrap) hc.offset_le
    (List.prefix_append c.buffer bytes)
  simp only [read, extend, hp]

theorem answer_extend (hle : c.parser.offset ≤ c.buffer.length) (bytes : Bytes) :
    (c.extend bytes).answer controller = (c.answer controller).extend bytes := by
  simp only [answer, extend, List.drop_append_of_le_length hle]

theorem process_congr (h : c.turn controller = d.turn controller) :
    c.process controller = d.process controller := by
  cases ht : d.turn controller with
  | again e => rw [process_of_again ht, process_of_again (h.trans ht)]
  | rest e => rw [process_of_rest ht, process_of_rest (h.trans ht)]

/-! ### Connections that agree -/

/-- The connection with the request that its parser will go on with. -/
def settled (c : Connection γ) : Connection γ :=
  { c with request := c.parser.held c.request }

/-- The connections have the same outside: what was written, what their controllers have
come to, and whether and why they are closed. Open ones also go on alike. -/
structure Agrees (c d : Connection γ) : Prop where
  link : c.link = d.link
  state : c.controllerState = d.controllerState
  closed : c.closed = d.closed
  settled : c.closed = none → c.settled = d.settled

theorem Agrees.refl (c : Connection γ) : c.Agrees c :=
  ⟨rfl, rfl, rfl, fun _ => rfl⟩

theorem Agrees.trans {e : Connection γ} (h : c.Agrees d) (h' : d.Agrees e) : c.Agrees e where
  link := h.link.trans h'.link
  state := h.state.trans h'.state
  closed := h.closed.trans h'.closed
  settled ho := (h.settled ho).trans (h'.settled (h.closed ▸ ho))

theorem agrees_of_settled (h : c.settled = d.settled) : c.Agrees d where
  link := (congrArg Connection.link h :)
  state := (congrArg Connection.controllerState h :)
  closed := (congrArg Connection.closed h :)
  settled _ := h

theorem read_settled (c : Connection γ) : c.settled.read = c.read := by
  simp only [read, settled, Parser.parse, Parser.run_held]

theorem settled_settled (c : Connection γ) : c.settled.settled = c.settled := by
  simp only [settled, Parser.held_held]

/-- The request of a parser that has not begun plays no part. -/
theorem settled_process_settled (controller : Controller γ) (c : Connection γ) :
    (c.settled.process controller).settled = (c.process controller).settled := by
  induction hw : c.work using Nat.strong_induction_on generalizing c with
  | _ work ih =>
    have hfront : c.settled.front = c.front := rfl
    cases hf : c.front with
    | frame n =>
      have hc : c.turn controller = _ := turn_of_frame hf
      rw [process_of_again hc, process_of_again (turn_of_frame (hfront.trans hf))]
      exact ih _ (hw ▸ work_turn_lt hc) { c with buffer := c.buffer.drop n } rfl
    | partOfFrame =>
      rw [process_of_rest (turn_of_partOfFrame hf),
        process_of_rest (turn_of_partOfFrame (hfront.trans hf)), settled_settled]
    | request =>
      have ht : c.settled.turn controller = c.turn controller := by
        rw [turn_of_request hf, turn_of_request (hfront.trans hf), read_settled]
      rw [process_congr ht]

/-! ### Turns and loops over a longer buffer -/

theorem read_of_buffer_eq_nil (h : c.buffer = []) (hm : c.parser.stage = .method) :
    c.read = c.settled := by
  simp only [read, settled, h, Parser.parse_nil hm]

/-- With nothing in the buffer a connection waits. -/
theorem process_of_buffer_eq_nil (h : c.buffer = []) (hm : c.parser.stage = .method) :
    c.process controller = c.settled := by
  have hf : c.front = .request := by
    rw [front_eq_request_iff, h]
    exact fun hs => absurd hs.2 (by decide)
  have hread := read_of_buffer_eq_nil h hm
  have hs : c.read.parser.stage.isTerminal = false := by
    rw [hread, settled, hm]
    rfl
  rw [process_of_rest (turn_of_waiting hf hs), hread]

theorem InStep.stage_of_buffer_eq_nil (hc : c.InStep) (h : c.buffer = []) :
    c.parser.stage = .method := by
  have ho := hc.offset_le
  rw [h, List.length_nil, Nat.le_zero] at ho
  exact hc.at_start ho

theorem front_read (h : c.front = .request) : c.read.front = .request := by
  rw [front_eq_request_iff] at h ⊢
  rintro ⟨ho, hs⟩
  have hle := Parser.offset_le_run c.parser c.request (c.buffer.drop c.parser.offset)
  simp only [read, Parser.parse] at ho
  exact h ⟨by omega, hs⟩

/-- A parse that has ended has ended when more bytes stand behind. -/
theorem extend_of_terminal (hc : c.InStep) (hf : c.front = .request)
    (hs : c.read.parser.stage.isTerminal) (bytes : Bytes) :
    (c.extend bytes).front = .request ∧ (c.extend bytes).read = c.read.extend bytes := by
  have hne : c.buffer ≠ [] := by
    intro hnil
    have hm := hc.stage_of_buffer_eq_nil hnil
    rw [read_of_buffer_eq_nil hnil hm, settled, hm] at hs
    cases hs
  have hp := Parser.parse_append_of_terminal hc.noWrap hc.offset_le hs bytes
  refine ⟨front_extend_of_request hf hne bytes, ?_⟩
  simp only [read, extend, hp]

theorem turn_extend_of_failed (hc : c.InStep) (hf : c.front = .request) {e : ParseError}
    (hs : c.read.parser.stage = .failed e) (bytes : Bytes) :
    (c.extend bytes).turn controller = .rest ((c.read.reject e).extend bytes) := by
  obtain ⟨hfront, hread⟩ := extend_of_terminal hc hf (by rw [hs]; rfl) bytes
  have hturn : (c.extend bytes).turn controller = _ :=
    turn_of_failed hfront (by rw [hread]; exact hs)
  rwa [hread] at hturn

theorem turn_extend_of_done (hc : c.InStep) (hf : c.front = .request)
    (hs : c.read.parser.stage = .done) (bytes : Bytes) :
    (c.extend bytes).turn controller =
      if (c.read.answer controller).closed.isSome then
        .rest ((c.read.answer controller).extend bytes)
      else .again ((c.read.answer controller).extend bytes) := by
  obtain ⟨hfront, hread⟩ := extend_of_terminal hc hf (by rw [hs]; rfl) bytes
  have hle : c.read.parser.offset ≤ c.read.buffer.length :=
    Parser.offset_parse_le hc.offset_le c.request
  have hturn : (c.extend bytes).turn controller = _ :=
    turn_of_done hfront (by rw [hread]; exact hs)
  rwa [hread, answer_extend hle] at hturn

/-- A turn that deals with a message deals with the same one when more bytes stand behind. -/
theorem turn_extend_of_again (hc : c.InStep) (ho : c.closed = none)
    (h : c.turn controller = .again d) (bytes : Bytes) :
    d.InStep ∧ d.closed = none ∧ (c.extend bytes).turn controller = .again (d.extend bytes) := by
  cases hf : c.front with
  | frame n =>
    obtain ⟨-, hn⟩ := length_of_front_eq_frame hf
    have hstart : c.parser.offset = 0 := by
      by_contra hne
      have hr := front_eq_request_iff.2 fun hs => hne hs.1
      rw [hf] at hr
      cases hr
    rw [turn_of_frame hf] at h
    cases h
    refine ⟨⟨hc.noWrap, ?_, hc.at_start⟩, ho, ?_⟩
    · rw [hstart]
      exact Nat.zero_le _
    · rw [turn_of_frame (front_extend_of_frame hf bytes)]
      simp only [extend, List.drop_append_of_le_length hn]
  | partOfFrame =>
    rw [turn_of_partOfFrame hf] at h
    cases h
  | request =>
    cases hs : c.read.parser.stage with
    | failed e =>
      rw [turn_of_failed hf hs] at h
      cases h
    | done =>
      rw [turn_of_done hf hs] at h
      split at h
      · cases h
      · rename_i hclosed
        cases h
        refine ⟨⟨?_, Nat.zero_le _, fun _ => rfl⟩, by simpa using hclosed,
          (turn_extend_of_done hc hf hs bytes).trans (if_neg hclosed)⟩
        have hl := Parser.limits_run c.parser c.request (c.buffer.drop c.parser.offset)
        simp only [parser_answer, Parser.reset, read, Parser.parse, hl]
        exact hc.noWrap
    | _ =>
      rw [turn_of_waiting hf (by rw [hs]; rfl)] at h
      cases h

/-- A turn that closes the connection closes it for the same reason when more bytes stand
behind; after a turn that waits for more, these bytes are dealt with as if they had been
there. -/
theorem turn_extend_of_rest (hc : c.InStep) (ho : c.closed = none)
    (h : c.turn controller = .rest d) (bytes : Bytes) :
    (d.closed ≠ none ∧ (c.extend bytes).turn controller = .rest (d.extend bytes)) ∨
      (d.closed = none ∧ d.InStep ∧
        ((d.extend bytes).process controller).Agrees ((c.extend bytes).process controller)) := by
  cases hf : c.front with
  | frame n =>
    rw [turn_of_frame hf] at h
    cases h
  | partOfFrame =>
    rw [turn_of_partOfFrame hf] at h
    cases h
    exact .inr ⟨ho, hc, .refl _⟩
  | request =>
    cases hs : c.read.parser.stage with
    | failed e =>
      rw [turn_of_failed hf hs] at h
      cases h
      exact .inl ⟨by simp [reject], turn_extend_of_failed hc hf hs bytes⟩
    | done =>
      rw [turn_of_done hf hs] at h
      split at h
      · rename_i hclosed
        cases h
        exact .inl ⟨Option.isSome_iff_ne_none.1 hclosed,
          (turn_extend_of_done hc hf hs bytes).trans (if_pos hclosed)⟩
      · cases h
    | _ =>
      have hwaits : c.read.parser.stage.isTerminal = false := by rw [hs]; rfl
      rw [turn_of_waiting hf hwaits] at h
      cases h
      refine .inr ⟨ho, hc.read hwaits, ?_⟩
      by_cases hnil : c.buffer = []
      · rw [read_of_buffer_eq_nil hnil (hc.stage_of_buffer_eq_nil hnil)]
        exact agrees_of_settled (settled_process_settled controller (c.extend bytes))
      · have ht : (c.read.extend bytes).turn controller = (c.extend bytes).turn controller := by
          rw [turn_of_request (front_extend_of_request (front_read hf) hnil bytes),
            turn_of_request (front_extend_of_request hf hnil bytes), read_extend_read hc]
        rw [process_congr ht]
        exact .refl _

/-- The whole loop: once closed, more bytes behind make no difference; where it waits, it
goes on as if they had been there. -/
theorem process_extend (controller : Controller γ) (hc : c.InStep) (ho : c.closed = none)
    (bytes : Bytes) :
    ((c.process controller).closed ≠ none →
        (c.process controller).Agrees ((c.extend bytes).process controller)) ∧
      ((c.process controller).closed = none →
        (c.process controller).InStep ∧
          (((c.process controller).extend bytes).process controller).Agrees
            ((c.extend bytes).process controller)) := by
  induction hw : c.work using Nat.strong_induction_on generalizing c with
  | _ work ih =>
    cases ht : c.turn controller with
    | again d =>
      obtain ⟨hd, hdo, hdt⟩ := turn_extend_of_again hc ho ht bytes
      rw [process_of_again ht, process_of_again hdt]
      exact ih _ (hw ▸ work_turn_lt ht) hd hdo rfl
    | rest d =>
      rw [process_of_rest ht]
      rcases turn_extend_of_rest hc ho ht bytes with ⟨hclosed, hdt⟩ | ⟨hopen, hd, hagrees⟩
      · rw [process_of_rest hdt]
        exact ⟨fun _ => ⟨rfl, rfl, rfl, fun h => absurd h hclosed⟩, fun h => absurd h hclosed⟩
      · exact ⟨fun h => absurd hopen h, fun _ => ⟨hd, hagrees⟩⟩

/-! ### Reads -/

theorem receive_receive (controller : Controller γ) (hc : c.InStep) (ho : c.closed = none)
    (a b : Bytes) :
    ((c.receive controller a).receive controller b).Agrees (c.receive controller (a ++ b)) ∧
      ((c.receive controller a).closed = none → (c.receive controller a).InStep) := by
  obtain ⟨hclosed, hopen⟩ := process_extend controller (hc.extend a) ho b
  rw [extend_extend] at hclosed hopen
  rw [receive_eq_process ho a, receive_eq_process ho (a ++ b)]
  by_cases h : ((c.extend a).process controller).closed = none
  · rw [receive_eq_process h]
    exact ⟨(hopen h).2, fun _ => (hopen h).1⟩
  · rw [receive_of_closed h]
    exact ⟨hclosed h, fun h' => absurd h' h⟩

theorem receiveAll_agrees (controller : Controller γ) (hc : c.InStep) (ho : c.closed = none)
    (first : Bytes) (reads : List Bytes) :
    (c.receiveAll controller (first :: reads)).Agrees
      (c.receive controller (first :: reads).flatten) := by
  induction reads generalizing c first with
  | nil =>
    rw [receiveAll_cons, receiveAll_nil, List.flatten_cons, List.flatten_nil, List.append_nil]
    exact .refl _
  | cons next reads ih =>
    obtain ⟨hagrees, hstep⟩ := receive_receive controller hc ho first (next :: reads).flatten
    rw [receiveAll_cons, List.flatten_cons]
    by_cases h : (c.receive controller first).closed = none
    · exact (ih (hstep h) h next).trans hagrees
    · rw [receive_of_closed h] at hagrees
      rwa [receiveAll_of_closed h]

theorem receiveAll_opened_agrees (controller : Controller γ) {config : ServerConfig}
    (hl : config.limits.NoWrap) (peer : Endpoint) (s : γ) (link : Link) (reads : List Bytes) :
    ((opened config peer s link).receiveAll controller reads).Agrees
      ((opened config peer s link).receive controller reads.flatten) := by
  cases reads with
  | nil =>
    have hp : (opened config peer s link).receive controller [] =
        (opened config peer s link).settled := by
      rw [receive_eq_process rfl]
      exact process_of_buffer_eq_nil rfl rfl
    rw [receiveAll_nil, List.flatten_nil, hp]
    exact agrees_of_settled (settled_settled _).symm
  | cons first reads =>
    exact receiveAll_agrees controller (inStep_opened hl peer s link) rfl first reads

/-- However a stream is cut into reads, the client is sent the same bytes, the controller
is called in the same way, and the connection is closed for the same reason or waits with
the same bytes and the same parser as if the whole stream had come in one read. Once it is
closed, further bytes change nothing, in reads of their own or in the same one. -/
theorem receiveAll_eq_receive_flatten {config : ServerConfig} (hl : config.limits.NoWrap)
    (controller : Controller γ) (peer : Endpoint) (s : γ) (link : Link) (reads : List Bytes) :
    let c : Connection γ := opened config peer s link
    let cut := c.receiveAll controller reads
    let whole := c.receive controller reads.flatten
    cut.link = whole.link ∧ cut.controllerState = whole.controllerState ∧
      cut.closed = whole.closed ∧
      c.calls controller reads = c.calls controller [reads.flatten] ∧
      (cut.closed = none → cut.buffer = whole.buffer ∧ cut.parser = whole.parser) ∧
      (cut.closed ≠ none → ∀ more : List Bytes,
        let longer := c.receive controller (reads ++ more).flatten
        c.receiveAll controller (reads ++ more) = cut ∧
          longer.link = cut.link ∧ longer.controllerState = cut.controllerState ∧
          longer.closed = cut.closed ∧
          c.calls controller (reads ++ more) = c.calls controller reads ∧
          c.calls controller [(reads ++ more).flatten] = c.calls controller reads) := by
  intro c cut whole
  have hagrees (reads : List Bytes) := receiveAll_opened_agrees controller hl peer s link reads
  -- the notes of the calls are part of the state of the controller that takes them
  have hcalls (reads : List Bytes) :
      c.calls controller reads = c.calls controller [reads.flatten] :=
    congrArg Prod.snd
      (receiveAll_opened_agrees controller.traced hl peer (s, []) link reads).state
  refine ⟨(hagrees reads).link, (hagrees reads).state, (hagrees reads).closed, hcalls reads, ?_, ?_⟩
  · intro ho
    have hs := (hagrees reads).settled ho
    exact ⟨(congrArg Connection.buffer hs :), (congrArg Connection.parser hs :)⟩
  · intro hclosed more longer
    have hmore : c.receiveAll controller (reads ++ more) = cut := by
      rw [receiveAll_append]
      exact receiveAll_of_closed hclosed more
    have hnoted : (c.noted.receiveAll controller.traced reads).closed ≠ none := by
      rwa [← congrArg Connection.closed (withoutNotes_receiveAll controller c reads)] at hclosed
    have hsame : c.calls controller (reads ++ more) = c.calls controller reads := by
      rw [calls, receiveAll_append, receiveAll_of_closed hnoted]
      rfl
    have hlong := hagrees (reads ++ more)
    refine ⟨hmore, ?_, ?_, ?_, hsame, (hcalls (reads ++ more)).symm.trans hsame⟩
    · exact hlong.link.symm.trans (congrArg Connection.link hmore)
    · exact hlong.state.symm.trans (congrArg Connection.controllerState hmore)
    · exact hlong.closed.symm.trans (congrArg Connection.closed hmore)

/-- A request cut inside its first line break, and a frame of which some bytes are missing,
before a controller that answers everything. -/
theorem receiveAll_options_eq_receive_flatten :
    ({} : ServerConfig).limits.NoWrap ∧
      let c : Connection Notes := opened {} ⟨.v4 127 0 0 1, 554, 0⟩ [] {}
      let controller := Script.controller fun _ => [.respond 200 "OK"]
      let reads := [Text.utf8 "OPTIONS * RTSP/1.0\r", Text.utf8 "\nCSeq: 1\r\n\r\n$", [1, 0]]
      (c.receiveAll controller reads).link = (c.receive controller reads.flatten).link ∧
        c.calls controller reads = c.calls controller [reads.flatten] := by
  have hl : ({} : ServerConfig).limits.NoWrap := by decide
  refine ⟨hl, ?_⟩
  intro c controller reads
  have h := receiveAll_eq_receive_flatten hl controller ⟨.v4 127 0 0 1, 554, 0⟩ [] {} reads
  exact ⟨h.1, h.2.2.2.1⟩

end Connection

end RealTimeStreaming
