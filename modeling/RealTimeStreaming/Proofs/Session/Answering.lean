import RealTimeStreaming.Proofs.Session.Messages
import RealTimeStreaming.Proofs.Wire.Output

/-! What the dispatch of a request puts on the wire. Over a sink that never fails these are whole
messages with nothing between them, and one of them at least is a response with the sequence
number of the request, whatever the controller does. -/

namespace RealTimeStreaming

/-- The bytes are whole messages, and a response to the request is one of them. -/
def Request.AnsweredBy (r : Request) (wire : Bytes) : Prop :=
  ∃ messages pieces, List.Forall₂ Outgoing.Spelled messages pieces ∧ wire = pieces.flatten ∧
    ∃ response, .response response ∈ messages ∧ ("CSeq", toString r.cseq) ∈ response.headers

theorem Sink.taken_sendFrame_of_reliable {s : Sink} (h : s.behaviour.Reliable) (channel : UInt8)
    (payload : Bytes) :
    (s.sendFrame channel payload).2.taken = s.taken ∨
      ∃ frame, Frame.encode channel payload = .ok frame ∧
        (s.sendFrame channel payload).2.taken = s.taken ++ frame := by
  cases hframe : Frame.encode channel payload with
  | error e =>
    left
    rw [sendFrame, hframe]
  | ok frame =>
    right
    have hw : s.write frame = (.ok (), (s.write frame).2) :=
      Prod.ext (write_of_reliable h frame) rfl
    refine ⟨frame, rfl, ?_⟩
    rw [sendFrame, hframe]
    simp only
    rw [hw]
    exact taken_write hw

namespace Exchange

theorem respond_of_reliable (x : Exchange) (hr : x.link.connection.behaviour.Reliable)
    (status : UInt16) (reason : String) :
    let message := (x.response status reason).encode
    let sink := (x.link.connection.write message).2
    x.respond status reason =
        (.ok message.length,
          { x with
            link := { x.link with connection := sink }
            staged := []
            body := none
            outcome := some (.ok message.length) }) ∧
      sink.taken = x.link.connection.taken ++ message ∧
      sink.behaviour = x.link.connection.behaviour := by
  intro message sink
  have hw : x.link.connection.write message = (.ok (), sink) :=
    Prod.ext (Sink.write_of_reliable hr message) rfl
  refine ⟨?_, Sink.taken_write hw, x.link.connection.behaviour_write message⟩
  simp only [Exchange.respond, show x.link.connection.write (x.response status reason).encode =
    (.ok (), sink) from hw]
  rfl

/-- Since the given bytes were on the wire the exchange has written whole messages, and if it has
responded, a response with the sequence number is one of them. -/
structure Adds (start : Bytes) (cseq : UInt32) (x : Exchange) : Prop where
  sound : x.Sound
  cseq_eq : x.cseq = cseq
  sent : ∃ messages pieces, List.Forall₂ Outgoing.Spelled messages pieces ∧
    x.link.connection.taken = start ++ pieces.flatten ∧
    (x.hasResponded → ∃ response, .response response ∈ messages ∧
      ("CSeq", toString cseq) ∈ response.headers)

namespace Adds

variable {start : Bytes} {cseq : UInt32} {x : Exchange}

/-- Up to now nothing was added. -/
theorem of_sound (h : x.Sound) (hnone : x.hasResponded = false) :
    x.Adds x.link.connection.taken x.cseq :=
  ⟨h, rfl, [], [], .nil, by simp, by simp [hnone]⟩

theorem respond (h : x.Adds start cseq) (status : UInt16) (reason : String) :
    (x.respond status reason).2.Adds start cseq := by
  obtain ⟨messages, pieces, hspelled, htaken, -⟩ := h.sent
  obtain ⟨hrespond, hwritten, -⟩ := x.respond_of_reliable h.sound.reliable status reason
  have hcseq : ("CSeq", toString cseq) ∈ (x.response status reason).headers := by
    simp [response, Response.addHeader, h.cseq_eq]
  refine ⟨h.sound.respond status reason, ?_, messages ++ [.response (x.response status reason)],
    pieces ++ [(x.response status reason).encode], ?_, ?_, fun _ => ?_⟩
  · rw [hrespond]
    exact h.cseq_eq
  · exact List.rel_append hspelled (.cons rfl .nil)
  · rw [hrespond]
    simp only [hwritten, htaken, List.flatten_append, List.flatten_singleton, List.append_assoc]
  · exact ⟨_, List.mem_append_right messages List.mem_cons_self, hcseq⟩

theorem sendFrame (h : x.Adds start cseq) (channel : UInt8) (payload : Bytes) :
    (x.sendFrame channel payload).2.Adds start cseq := by
  obtain ⟨messages, pieces, hspelled, htaken, hresponded⟩ := h.sent
  refine ⟨h.sound.sendFrame channel payload, h.cseq_eq, ?_⟩
  obtain hsame | ⟨frame, hframe, hwritten⟩ :=
    Sink.taken_sendFrame_of_reliable h.sound.reliable channel payload
  · exact ⟨messages, pieces, hspelled, hsame.trans htaken, hresponded⟩
  · have hlast : Outgoing.Spelled (.frame channel payload) frame := hframe
    refine ⟨messages ++ [.frame channel payload], pieces ++ [frame],
      List.rel_append hspelled (.cons hlast .nil), ?_, fun hx => ?_⟩
    · rw [List.flatten_append, List.flatten_singleton, ← List.append_assoc, ← htaken]
      exact hwritten
    · obtain ⟨response, hmem, hcseq⟩ := hresponded hx
      exact ⟨response, List.mem_append_left _ hmem, hcseq⟩

theorem run {α : Type} (h : x.Adds start cseq) (handler : Handler α) :
    (handler.run x).2.Adds start cseq := by
  induction handler generalizing x with
  | done value => exact h
  | header name value next ih =>
    exact ih ⟨⟨h.sound.reliable, h.sound.outcome⟩, h.cseq_eq, h.sent⟩
  | body content next ih =>
    exact ih ⟨⟨h.sound.reliable, h.sound.outcome⟩, h.cseq_eq, h.sent⟩
  | respond status reason next ih => exact ih _ (h.respond status reason)
  | sendFrame channel payload next ih => exact ih _ (h.sendFrame channel payload)
  | look next ih => exact ih _ h
  | start stream next ih => exact ih h

/-- There is a response in any case. -/
theorem ensureAnswered (h : x.Adds start cseq) :
    (Controller.ensureAnswered x).Adds start cseq ∧
      (Controller.ensureAnswered x).hasResponded := by
  unfold Controller.ensureAnswered
  split
  · rename_i hresponded
    exact ⟨h, hresponded⟩
  · obtain ⟨hrespond, -⟩ :=
      x.respond_of_reliable h.sound.reliable 500 "Internal Server Error"
    refine ⟨h.respond _ _, ?_⟩
    rw [hrespond]
    rfl

end Adds

end Exchange

namespace Controller

variable {γ : Type}

theorem dispatch_answers (controller : Controller γ) (r : Request) (s : γ) (peer : Endpoint)
    {link : Link} (hr : link.connection.behaviour.Reliable) :
    ∃ wire, r.AnsweredBy wire ∧
      (controller.dispatch r s { peer, cseq := r.cseq, link }).2.2.link.connection.taken =
        link.connection.taken ++ wire := by
  have hsound : Exchange.Sound { peer, cseq := r.cseq, link } := ⟨hr, by simp⟩
  obtain ⟨hadds, hresponded⟩ :=
    (((Exchange.Adds.of_sound hsound rfl).run (controller.before r s)).run
      (controller.hook r.method r ((controller.before r s).run _).1)).ensureAnswered
  obtain ⟨messages, pieces, hspelled, htaken, hanswer⟩ := hadds.sent
  obtain ⟨response, hresponse, hcseq⟩ := hanswer hresponded
  -- What the last hook sends comes behind the answer.
  obtain ⟨more, others, hmore, hwritten, -⟩ :=
    ((Exchange.Adds.of_sound hadds.sound.takeOutcome rfl).run (controller.after _ r _).handler).sent
  refine ⟨(pieces ++ others).flatten, ⟨messages ++ more, pieces ++ others,
    List.rel_append hspelled hmore, rfl, response, List.mem_append_left _ hresponse, hcseq⟩, ?_⟩
  rw [List.flatten_append, ← List.append_assoc, ← htaken]
  exact hwritten

/-- Requests in a row are answered in their order, each before the next one is dispatched. -/
theorem dispatchAll_answers (controller : Controller γ) (peer : Endpoint)
    (requests : List Request) (s : γ) {link : Link}
    (hr : link.connection.behaviour.Reliable) :
    ∃ wires, List.Forall₂ Request.AnsweredBy requests wires ∧
      (controller.dispatchAll peer requests (s, link)).2.connection.taken =
        link.connection.taken ++ wires.flatten := by
  induction requests generalizing s link with
  | nil => exact ⟨[], .nil, (List.append_nil _).symm⟩
  | cons r rest ih =>
    have hsound : Exchange.Sound { peer, cseq := r.cseq, link } := ⟨hr, by simp⟩
    obtain ⟨wire, hanswered, htaken⟩ := controller.dispatch_answers r s peer hr
    obtain ⟨wires, hrest, hwritten⟩ := ih
      (controller.dispatch r s { peer, cseq := r.cseq, link }).2.1
      (controller.dispatch_of_sound r s hsound).2
    refine ⟨wire :: wires, .cons hanswered hrest, ?_⟩
    rw [dispatchAll, hwritten, htaken, List.flatten_cons, List.append_assoc]

end Controller

end RealTimeStreaming
