import RealTimeStreaming.Proofs.Session.Dispatch
import RealTimeStreaming.Session.Connection

/-! Reads taken in one after the other, and the hook calls that they bring about. -/

namespace RealTimeStreaming.Connection

variable {γ : Type}

/-- Takes in the bytes of one read after the other. -/
def receiveAll (controller : Controller γ) (c : Connection γ) (reads : List Bytes) :
    Connection γ :=
  reads.foldl (receive controller) c

@[simp] theorem receiveAll_nil (controller : Controller γ) (c : Connection γ) :
    c.receiveAll controller [] = c := rfl

@[simp] theorem receiveAll_cons (controller : Controller γ) (c : Connection γ) (bytes : Bytes)
    (reads : List Bytes) :
    c.receiveAll controller (bytes :: reads) =
      (c.receive controller bytes).receiveAll controller reads := rfl

theorem receiveAll_append (controller : Controller γ) (c : Connection γ) (reads more : List Bytes) :
    c.receiveAll controller (reads ++ more) =
      (c.receiveAll controller reads).receiveAll controller more :=
  List.foldl_append

theorem receive_of_closed {controller : Controller γ} {c : Connection γ} (h : c.closed ≠ none)
    (bytes : Bytes) : c.receive controller bytes = c :=
  if_pos (Option.isSome_iff_ne_none.2 h)

/-- A connection that is open after a read was open before it. -/
theorem open_of_receive {controller : Controller γ} {c : Connection γ} {bytes : Bytes}
    (h : (c.receive controller bytes).closed = none) : c.closed = none :=
  Decidable.byContradiction fun hne => hne (receive_of_closed hne bytes ▸ h)

theorem receive_of_open {controller : Controller γ} {c : Connection γ} (h : c.closed = none)
    (bytes : Bytes) :
    c.receive controller bytes = process controller { c with buffer := c.buffer ++ bytes } := by
  rw [receive, h]
  rfl

theorem receiveAll_of_closed {controller : Controller γ} {c : Connection γ} (h : c.closed ≠ none)
    (reads : List Bytes) : c.receiveAll controller reads = c := by
  induction reads with
  | nil => rfl
  | cons bytes reads ih => rw [receiveAll_cons, receive_of_closed h, ih]

/-- What every read keeps, as long as the connection is open, holds after all of them. -/
theorem receiveAll_keeps {P : Connection γ → Prop} {controller : Controller γ} {c : Connection γ}
    (hread : ∀ d bytes, P d → d.closed = none → (d.receive controller bytes).closed = none →
      P (d.receive controller bytes))
    (hc : P c) (reads : List Bytes) (ho : (c.receiveAll controller reads).closed = none) :
    P (c.receiveAll controller reads) := by
  induction reads generalizing c with
  | nil => exact hc
  | cons bytes reads ih =>
    rw [receiveAll_cons] at ho ⊢
    by_cases hnext : (c.receive controller bytes).closed = none
    · exact ih (hread c bytes hc (open_of_receive hnext) hnext) ho
    · rw [receiveAll_of_closed hnext] at ho
      exact absurd ho hnext

/-! ### One turn -/

/-- The connection after its parser has been shown the buffer. -/
def read (c : Connection γ) : Connection γ :=
  { c with
    parser := (c.parser.parse c.request c.buffer).1
    request := (c.parser.parse c.request c.buffer).2 }

section Turn

variable {controller : Controller γ} {c d : Connection γ}

theorem turn_of_frame {n : Nat} (h : c.front = .frame n) :
    c.turn controller = .again { c with buffer := c.buffer.drop n } := by
  simp only [turn, h]

theorem turn_of_partOfFrame (h : c.front = .partOfFrame) : c.turn controller = .rest c := by
  simp only [turn, h]

theorem turn_of_request (h : c.front = .request) :
    c.turn controller =
      match c.read.parser.stage with
      | .failed e => .rest (c.read.reject e)
      | .done =>
        if (c.read.answer controller).closed.isSome then .rest (c.read.answer controller)
        else .again (c.read.answer controller)
      | _ => .rest c.read := by
  simp only [turn, h]
  rfl

theorem turn_of_failed {e : ParseError} (h : c.front = .request)
    (hs : c.read.parser.stage = .failed e) : c.turn controller = .rest (c.read.reject e) := by
  rw [turn_of_request h, hs]

theorem turn_of_done (h : c.front = .request) (hs : c.read.parser.stage = .done) :
    c.turn controller =
      if (c.read.answer controller).closed.isSome then .rest (c.read.answer controller)
      else .again (c.read.answer controller) := by
  rw [turn_of_request h, hs]

theorem turn_of_waiting (h : c.front = .request) (hs : c.read.parser.stage.isTerminal = false) :
    c.turn controller = .rest c.read := by
  rw [turn_of_request h]
  cases he : c.read.parser.stage with
  | failed e =>
    rw [he] at hs
    cases hs
  | done =>
    rw [he] at hs
    cases hs
  | _ => rfl

theorem process_of_again (h : c.turn controller = .again d) :
    c.process controller = d.process controller := by
  conv => lhs; unfold process
  split <;> simp_all

theorem process_of_rest (h : c.turn controller = .rest d) : c.process controller = d := by
  unfold process
  split <;> simp_all

end Turn

/-! ### Notes of the hook calls -/

/-- The connection with a controller that notes its calls and has noted none yet. -/
def noted (c : Connection γ) : Connection (γ × List Call) where
  peer := c.peer
  controllerState := (c.controllerState, [])
  parser := c.parser
  request := c.request
  link := c.link
  buffer := c.buffer
  closed := c.closed

def withoutNotes (c : Connection (γ × List Call)) : Connection γ where
  peer := c.peer
  controllerState := c.controllerState.1
  parser := c.parser
  request := c.request
  link := c.link
  buffer := c.buffer
  closed := c.closed

/-- The hook calls that reads bring about, in order. -/
def calls (controller : Controller γ) (c : Connection γ) (reads : List Bytes) : List Call :=
  (c.noted.receiveAll controller.traced reads).controllerState.2

theorem withoutNotes_answer (controller : Controller γ) (c : Connection (γ × List Call)) :
    (c.answer controller.traced).withoutNotes = c.withoutNotes.answer controller := by
  rcases hs : c.controllerState with ⟨s, log⟩
  have hd := controller.dispatch_traced c.request s log
    { peer := c.peer, cseq := c.request.cseq, link := c.link }
  simp only [withoutNotes, answer, hs, hd]

/-- A turn under a controller that notes its calls is a turn under the controller itself. -/
theorem turn_withoutNotes (controller : Controller γ) (c : Connection (γ × List Call)) :
    c.withoutNotes.turn controller =
      match c.turn controller.traced with
      | .again d => .again d.withoutNotes
      | .rest d => .rest d.withoutNotes := by
  have hfront : c.withoutNotes.front = c.front := rfl
  have hread : c.withoutNotes.read = c.read.withoutNotes := rfl
  cases hf : c.front with
  | frame n => rw [turn_of_frame (hfront.trans hf), turn_of_frame hf]; rfl
  | partOfFrame => rw [turn_of_partOfFrame (hfront.trans hf), turn_of_partOfFrame hf]
  | request =>
    cases hs : c.read.parser.stage with
    | failed e => rw [turn_of_failed (hfront.trans hf) hs, turn_of_failed hf hs]; rfl
    | done =>
      rw [turn_of_done (hfront.trans hf) hs, turn_of_done hf hs, hread, ← withoutNotes_answer]
      have hclosed : (c.read.answer controller.traced).withoutNotes.closed =
        (c.read.answer controller.traced).closed := rfl
      rw [hclosed]
      split <;> rfl
    | _ =>
      rw [turn_of_waiting (hfront.trans hf) (by rw [hread]; exact congrArg Stage.isTerminal hs),
        turn_of_waiting hf (congrArg Stage.isTerminal hs), hread]

theorem withoutNotes_process (controller : Controller γ) (c : Connection (γ × List Call)) :
    (c.process controller.traced).withoutNotes = c.withoutNotes.process controller := by
  fun_induction process controller.traced c with
  | case1 c d h ih =>
    refine ih.trans (process_of_again ?_).symm
    rw [turn_withoutNotes, h]
  | case2 c d h =>
    refine (process_of_rest ?_).symm
    rw [turn_withoutNotes, h]

theorem withoutNotes_receive (controller : Controller γ) (c : Connection (γ × List Call))
    (bytes : Bytes) :
    (c.receive controller.traced bytes).withoutNotes =
      c.withoutNotes.receive controller bytes := by
  unfold receive
  split
  · rename_i h
    exact (if_pos h).symm
  · rename_i h
    rw [withoutNotes_process]
    exact (if_neg h).symm

/-- Noting the calls changes nothing else. -/
theorem withoutNotes_receiveAll (controller : Controller γ) (c : Connection γ)
    (reads : List Bytes) :
    (c.noted.receiveAll controller.traced reads).withoutNotes = c.receiveAll controller reads := by
  have h (d : Connection (γ × List Call)) :
      (d.receiveAll controller.traced reads).withoutNotes =
        d.withoutNotes.receiveAll controller reads := by
    induction reads generalizing d with
    | nil => rfl
    | cons bytes reads ih => rw [receiveAll_cons, ih, withoutNotes_receive, receiveAll_cons]
  exact h c.noted

end RealTimeStreaming.Connection
