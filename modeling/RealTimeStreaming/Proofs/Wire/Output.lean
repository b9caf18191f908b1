import RealTimeStreaming.Proofs.Response.Reading
import RealTimeStreaming.Proofs.Rtp.Runs
import RealTimeStreaming.Wire.SinkScript

/-! The output of a connection: frames and responses one behind the other, with nothing between
them. The first byte tells which of the two comes next, and each says where it ends, so a client
finds the messages again, whatever their payloads and bodies hold. -/

namespace RealTimeStreaming

theorem Response.starts_encode_append (r : Response) (rest : Bytes) :
    Frame.starts (r.encode ++ rest) = false := by
  obtain ⟨tail, htail⟩ := r.encode_eq_cons
  rw [htail]
  rfl

/-- A message that a connection writes. -/
inductive Outgoing where
  | frame (channel : UInt8) (payload : Bytes)
  | response (r : Response)
deriving DecidableEq, Repr

namespace Outgoing

/-- Writes one message and gives the count of its bytes. -/
def send : Outgoing → Sink → Except RtspError Nat × Sink
  | .frame channel payload, s => s.sendFrame channel payload
  | .response r, s =>
    match s.write r.encode with
    | (.ok (), s) => (.ok r.encode.length, s)
    | (.error e, s) => (.error (.io e), s)

/-- The message at the start and the bytes behind it. -/
def cut? (bytes : Bytes) : Option (Outgoing × Bytes) :=
  if Frame.starts bytes then
    (Frame.cut? bytes).map fun ((channel, payload), rest) => (.frame channel payload, rest)
  else (Response.cut? bytes).map fun (r, rest) => (.response r, rest)

/-- The messages that the bytes are made of. -/
def readAll? (bytes : Bytes) : Option (List Outgoing) :=
  if bytes = [] then some []
  else
    match cut? bytes with
    | none => none
    | some (message, rest) =>
      if rest.length < bytes.length then (readAll? rest).map (message :: ·) else none
termination_by bytes.length

/-- The bytes of a message on the wire. -/
def Spelled : Outgoing → Bytes → Prop
  | .frame channel payload, bytes => Frame.encode channel payload = .ok bytes
  | .response r, bytes => bytes = r.encode

theorem spelled_of_send {message : Outgoing} {s t : Sink} {n : Nat}
    (h : message.send s = (.ok n, t)) :
    ∃ bytes, message.Spelled bytes ∧ t.taken = s.taken ++ bytes := by
  cases message with
  | frame channel payload =>
    obtain ⟨frame, hframe, -, htaken⟩ := Sink.taken_sendFrame h
    exact ⟨frame, hframe, htaken⟩
  | response r =>
    simp only [send] at h
    split at h
    · rename_i t' hw
      cases h
      exact ⟨r.encode, rfl, Sink.taken_write hw⟩
    · cases h

theorem Spelled.ne_nil {message : Outgoing} {bytes : Bytes} (h : message.Spelled bytes) :
    bytes ≠ [] := by
  rintro rfl
  cases message with
  | frame channel payload => exact absurd (Frame.starts_encode h) (by decide)
  | response r => exact absurd h.symm r.encode_ne_nil

/-- The first byte tells a frame from a response. -/
theorem cut?_append {message : Outgoing} {bytes : Bytes} (h : message.Spelled bytes)
    (hplain : ∀ r, message = .response r → r.Plain) (rest : Bytes) :
    cut? (bytes ++ rest) = some (message, rest) := by
  cases message with
  | frame channel payload =>
    have hstarts : Frame.starts (bytes ++ rest) = true := by
      rw [Frame.starts_append (Spelled.ne_nil h)]
      exact Frame.starts_encode h
    rw [cut?, if_pos hstarts, Frame.cut?_encode_append h]
    rfl
  | response r =>
    have hbytes : bytes = r.encode := h
    rw [cut?, hbytes, r.starts_encode_append, (hplain r rfl).cut?_encode_append]
    rfl

theorem readAll?_append {message : Outgoing} {bytes rest : Bytes} {messages : List Outgoing}
    (hne : bytes ≠ []) (h : cut? (bytes ++ rest) = some (message, rest))
    (hrest : readAll? rest = some messages) :
    readAll? (bytes ++ rest) = some (message :: messages) := by
  have hlength := List.length_pos_iff.2 hne
  rw [readAll?, if_neg (List.append_ne_nil_of_left_ne_nil hne rest), h]
  simp only [List.length_append]
  rw [if_pos (by omega), hrest]
  rfl

/-- Messages that stand one behind the other are read back. -/
theorem readAll?_of_spelled {messages : List Outgoing} {pieces : List Bytes}
    (h : List.Forall₂ Spelled messages pieces) (hplain : ∀ r, .response r ∈ messages → r.Plain) :
    readAll? pieces.flatten = some messages := by
  induction h with
  | nil => rw [List.flatten_nil, readAll?, if_pos rfl]
  | @cons message bytes messages pieces hspelled hrest ih =>
    rw [List.flatten_cons]
    apply readAll?_append hspelled.ne_nil (cut?_append hspelled ?_ pieces.flatten)
    · exact ih fun r hr => hplain r (List.mem_cons_of_mem message hr)
    · rintro r rfl
      exact hplain r List.mem_cons_self

/-! ### Messages of one kind -/

/-- The payload of a frame on the channel. -/
def payloadOn? (channel : UInt8) : Outgoing → Option Bytes
  | .frame on payload => if on = channel then some payload else none
  | .response _ => none

def response? : Outgoing → Option Response
  | .frame _ _ => none
  | .response r => some r

/-- The payloads of the frames on one channel. -/
def payloadsOn (channel : UInt8) (messages : List Outgoing) : List Bytes :=
  messages.filterMap (payloadOn? channel)

/-- The messages without the frames. -/
def responses (messages : List Outgoing) : List Response :=
  messages.filterMap response?

/-! ### Messages in a row -/

/-- Messages that were all written stand on the wire so that they can be told apart. -/
theorem readAll?_of_sendEach {s t : Sink} {messages : List Outgoing} {n : Nat}
    (hplain : ∀ r, .response r ∈ messages → r.Plain)
    (h : Rtp.sendEach send messages s = (.ok n, t)) :
    ∃ wire, t.taken = s.taken ++ wire ∧ readAll? wire = some messages := by
  induction messages generalizing s n with
  | nil =>
    cases h
    exact ⟨[], (List.append_nil _).symm, by rw [readAll?, if_pos rfl]⟩
  | cons message messages ih =>
    obtain ⟨first, others, next, hsend, hsends, -⟩ := Rtp.of_sendEach_cons h
    obtain ⟨bytes, hspelled, htaken⟩ := spelled_of_send hsend
    obtain ⟨wire, htaken', hread⟩ :=
      ih (fun r hr => hplain r (List.mem_cons_of_mem message hr)) hsends
    refine ⟨bytes ++ wire, by rw [htaken', htaken, List.append_assoc], ?_⟩
    apply readAll?_append hspelled.ne_nil (cut?_append hspelled ?_ wire) hread
    rintro r rfl
    exact hplain r List.mem_cons_self

/-- A frame that holds a response, a body that looks like a frame, no body and an empty one,
through a sink that takes three bytes at a time and is interrupted every other time. -/
theorem readAll?_of_sendEach_mixed :
    let messages : List Outgoing :=
      [.frame 36 Response.badRequest.encode,
        .response ((Response.ok.addHeader "CSeq" "7").withBody (Text.utf8 "$\r\n\r\n")),
        .response Response.badRequest, .response (Response.ok.withBody [])]
    let s := { interruptEvery := 2, maxWrite := some 3 : SinkScript }.toSink
    (∀ r, .response r ∈ messages → r.Plain) ∧
      ∃ n t, Rtp.sendEach send messages s = (.ok n, t) ∧ n = 242 ∧
        ∃ wire, t.taken = wire ∧ readAll? wire = some messages := by
  intro messages s
  have hplain : ∀ r, .response r ∈ messages → r.Plain := by
    intro r hr
    simp only [messages, List.mem_cons, List.not_mem_nil, or_false, reduceCtorEq, false_or,
      response.injEq] at hr
    rcases hr with rfl | rfl | rfl <;> decide +kernel
  have hsent : (Rtp.sendEach send messages s).1.toOption = some 242 := by
    decide +kernel
  rcases h : Rtp.sendEach send messages s with ⟨result, t⟩
  rw [h] at hsent
  cases result with
  | error e => cases hsent
  | ok n =>
    obtain ⟨wire, htaken, hread⟩ := readAll?_of_sendEach hplain h
    exact ⟨hplain, n, t, rfl, Option.some.inj hsent, wire, htaken, hread⟩

end Outgoing

/-! ### Two points of an output -/

namespace Sink

/-- Between the two points the sink has taken these messages, and no other byte. -/
def Wrote (before : Sink) (messages : List Outgoing) (after : Sink) : Prop :=
  ∃ pieces, List.Forall₂ Outgoing.Spelled messages pieces ∧
    after.taken = before.taken ++ pieces.flatten

namespace Wrote

variable {s t u : Sink} {messages more : List Outgoing}

theorem refl (s : Sink) : s.Wrote [] s :=
  ⟨[], .nil, (List.append_nil _).symm⟩

theorem trans (h : s.Wrote messages t) (hmore : t.Wrote more u) : s.Wrote (messages ++ more) u := by
  obtain ⟨pieces, hpieces, ht⟩ := h
  obtain ⟨others, hothers, hu⟩ := hmore
  refine ⟨pieces ++ others, List.rel_append hpieces hothers, ?_⟩
  rw [hu, ht, List.flatten_append, List.append_assoc]

theorem of_spelled {message : Outgoing} {bytes : Bytes} (h : message.Spelled bytes)
    (htaken : t.taken = s.taken ++ bytes) : s.Wrote [message] t :=
  ⟨[bytes], .cons h .nil, by rw [htaken, List.flatten_singleton]⟩

theorem response (hr : s.behaviour.Reliable) (r : Response) :
    s.Wrote [.response r] (s.write r.encode).2 := by
  have hwrite : s.write r.encode = (.ok (), (s.write r.encode).2) :=
    Prod.ext (write_of_reliable hr r.encode) rfl
  exact of_spelled rfl (taken_write hwrite)

theorem taken_grows (h : s.Wrote messages t) : s.taken <+: t.taken := by
  obtain ⟨pieces, -, ht⟩ := h
  exact ht ▸ List.prefix_append _ _

/-- A client finds the messages again. -/
theorem exists_wire (h : s.Wrote messages t) (hplain : ∀ r, .response r ∈ messages → r.Plain) :
    ∃ wire, t.taken = s.taken ++ wire ∧ Outgoing.readAll? wire = some messages := by
  obtain ⟨pieces, hpieces, ht⟩ := h
  exact ⟨pieces.flatten, ht, Outgoing.readAll?_of_spelled hpieces hplain⟩

end Wrote

end Sink

end RealTimeStreaming
