import Mathlib.Logic.Relation
import RealTimeStreaming.Proofs.Request.Positions
import RealTimeStreaming.Proofs.Session.Backlog

/-! How long the input loop of a connection goes round. A turn after which it goes on has taken a
message off the buffer, and a message is not empty, so there are no more turns than bytes and one.
What is taken off is in the buffer: a frame that is whole, or a request that the parser has come
to the end of. -/

namespace RealTimeStreaming.Connection

variable {γ : Type} {controller : Controller γ} {config : ServerConfig} {c d : Connection γ}

/-- Deals with the message at the start of the buffer. The parser reads by positions in a limited
number of rounds, and only bytes that are there can be taken off the buffer. -/
def turn? (controller : Controller γ) (c : Connection γ) : Option (Turn γ) :=
  match c.front with
  | .frame length => do
    let buffer ← slice? c.buffer length c.buffer.length
    return .again { c with buffer }
  | .partOfFrame => some (.rest c)
  | .request => do
    let (parser, request) ← c.parser.parseWithin (c.buffer.length + 6) c.request c.buffer
    let c := { c with parser, request }
    match parser.stage with
    | .failed e => return .rest (c.reject e)
    | .done =>
      let buffer ← slice? c.buffer parser.offset c.buffer.length
      let c := { c.answer controller with buffer }
      return if c.closed.isSome then .rest c else .again c
    | _ => return .rest c

/-- Deals with every message that is complete in the buffer, within so many turns. -/
def processWithin (controller : Controller γ) : (turns : Nat) → Connection γ → Option (Connection γ)
  | 0, _ => none
  | turns + 1, c => do
    match ← c.turn? controller with
    | .again c => processWithin controller turns c
    | .rest c => return c

/-- From one turn the loop comes to another. -/
def Comes (controller : Controller γ) : Connection γ → Connection γ → Prop :=
  Relation.ReflTransGen fun c d => c.turn controller = .again d

namespace Tracks

theorem offset_read_le (h : c.Tracks config) : c.read.parser.offset ≤ c.buffer.length := by
  have hlook : (look config c.buffer).1 = c.read.parser := by rw [h.look_eq]
  rw [← hlook]
  exact Parser.offset_parse_le (Nat.zero_le _) _

/-- A request is not empty. -/
theorem offset_read_pos (h : c.Tracks config) (hs : c.read.parser.stage = .done) :
    0 < c.read.parser.offset := by
  have hlook : (look config c.buffer).1 = c.read.parser := by rw [h.look_eq]
  rw [← hlook] at hs ⊢
  exact (Parser.run_consumes (by simp [Stage.rank]) hs).1

theorem turn?_eq (h : c.Tracks config) (controller : Controller γ) :
    c.turn? controller = some (c.turn controller) := by
  cases hf : c.front with
  | frame n =>
    have hin := slice?_from (length_of_front_eq_frame hf).2
    simp only [turn?, hf, hin, turn_of_frame hf]
    rfl
  | partOfFrame => simp only [turn?, hf, turn_of_partOfFrame hf]
  | request =>
    have hparse : c.parser.parseWithin (c.buffer.length + 6) c.request c.buffer =
        some (c.read.parser, c.read.request) :=
      Parser.parseWithin_length_add_six c.parser c.request c.buffer
    have hin := slice?_from h.offset_read_le
    rw [turn_of_request hf]
    simp only [turn?, hf, hparse, Option.bind_eq_bind, Option.bind_some]
    cases hs : c.read.parser.stage with
    | done =>
      simp only [hin, Option.bind_some]
      rfl
    | _ => rfl

/-- What a turn takes off the buffer before the loop goes on. -/
theorem drop_of_turn (h : c.Tracks config) (ht : c.turn controller = .again d) :
    ∃ n, 0 < n ∧ n ≤ c.buffer.length ∧ d.buffer = c.buffer.drop n := by
  cases hf : c.front with
  | frame n =>
    obtain ⟨hheader, hle⟩ := length_of_front_eq_frame hf
    rw [turn_of_frame hf] at ht
    cases ht
    exact ⟨n, Nat.lt_of_lt_of_le (by decide) hheader, hle, rfl⟩
  | partOfFrame =>
    rw [turn_of_partOfFrame hf] at ht
    cases ht
  | request =>
    cases hs : c.read.parser.stage with
    | failed e =>
      rw [turn_of_failed hf hs] at ht
      cases ht
    | done =>
      rw [turn_of_done hf hs] at ht
      split at ht
      · cases ht
      · cases ht
        exact ⟨c.read.parser.offset, h.offset_read_pos hs, h.offset_read_le, rfl⟩
    | _ =>
      rw [turn_of_waiting hf (by rw [hs]; rfl)] at ht
      cases ht

theorem comes (h : c.Tracks config) (hc : c.Comes controller d) : d.Tracks config := by
  induction hc with
  | refl => exact h
  | tail _ ht ih => exact ih.turn_again ht

theorem processWithin_eq {turns : Nat} (h : c.Tracks config) (hturns : c.buffer.length < turns) :
    c.processWithin controller turns = some (c.process controller) := by
  induction turns generalizing c with
  | zero => omega
  | succ turns ih =>
    rw [processWithin, h.turn?_eq controller]
    cases ht : c.turn controller with
    | again d =>
      obtain ⟨n, hpos, hle, hbuffer⟩ := h.drop_of_turn ht
      rw [process_of_again ht]
      refine ih (h.turn_again ht) ?_
      rw [hbuffer, List.length_drop]
      omega
    | rest d =>
      rw [process_of_rest ht]
      rfl

end Tracks

/-- The input loops end, and no index is out of range. A parser in any state, with any request
and on any bytes, goes round at most six times more than there are bytes, and is refused no slice.
The loop of a connection that is open after any reads goes round at most once more than there are
bytes in its buffer when it has taken in another read. Every turn after which it goes on takes
bytes off the buffer that are there, and at least one; where a request is complete, it has come to
its end within the buffer. -/
theorem loops_end_in_range :
    (∀ (p : Parser) (r : Request) (input : Bytes),
      p.parseWithin (input.length + 6) r input = some (p.parse r input)) ∧
    ∀ {γ : Type} (earlier controller : Controller γ) (config : ServerConfig) (peer : Endpoint)
      (s : γ) (link : Link) (reads : List Bytes) (bytes : Bytes),
      let c := (opened config peer s link).receiveAll earlier reads
      let start := c.extend bytes
      c.closed = none →
        start.processWithin controller (start.buffer.length + 1) =
            some (c.receive controller bytes) ∧
          ∀ now, start.Comes controller now →
            (∀ next, now.turn controller = .again next →
              ∃ n, 0 < n ∧ n ≤ now.buffer.length ∧ next.buffer = now.buffer.drop n) ∧
            (now.read.parser.stage = .done →
              0 < now.read.parser.offset ∧ now.read.parser.offset ≤ now.buffer.length) := by
  refine ⟨Parser.parseWithin_length_add_six, ?_⟩
  intro γ earlier controller config peer s link reads bytes c start hopen
  have hnew : (opened config peer s link).Tracks config := tracks_of_new rfl rfl
  have htracks : c.Tracks config :=
    receiveAll_keeps (fun d read hd hd' hnext => (hd.receive earlier hd' read hnext).1) hnew reads
      hopen
  have hstart : start.Tracks config := htracks.extend bytes
  refine ⟨?_, fun now hcomes => ?_⟩
  · rw [receive_eq_process hopen]
    exact hstart.processWithin_eq (Nat.lt_succ_self _)
  · have hnow := hstart.comes hcomes
    exact ⟨fun next => hnow.drop_of_turn, fun hs => ⟨hnow.offset_read_pos hs, hnow.offset_read_le⟩⟩

/-- The first read ends inside a request. The second brings its end, a frame, and a request with a
body that is cut. -/
theorem loops_end_in_range_cut_requests :
    let script := Script.controller fun _ => []
    let c := (opened {} ⟨.v4 127 0 0 1, 554, 0⟩ [] {}).receiveAll script
      [Text.utf8 "OPTIONS * RTSP/1.0\r\nCS"]
    let bytes := Text.utf8 "eq: 1\r\n\r\n$\x00\x00\x01!" ++
      Text.utf8 "PLAY * RTSP/1.0\r\nCSeq: 2\r\nContent-Length: 2\r\n\r\n?"
    c.closed = none ∧ c.parser.offset = 20 ∧
      (c.extend bytes).processWithin script 85 = some (c.receive script bytes) := by
  intro script c bytes
  have hopen : c.closed = none := by decide +kernel
  have hlength : (c.extend bytes).buffer.length + 1 = 85 := by decide +kernel
  have h := (loops_end_in_range.2 script script {} ⟨.v4 127 0 0 1, 554, 0⟩ [] {}
    [Text.utf8 "OPTIONS * RTSP/1.0\r\nCS"] bytes hopen).1
  exact ⟨hopen, by decide +kernel, by rw [← hlength]; exact h⟩

end RealTimeStreaming.Connection
