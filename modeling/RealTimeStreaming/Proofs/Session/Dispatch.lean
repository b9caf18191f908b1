import RealTimeStreaming.Proofs.Wire.Reliable
import RealTimeStreaming.Session.Controller

/-! The dispatch of one request: that it cannot end in an error over a reliable sink, and
which hooks of the controller it calls, with what. The calls are seen by a controller that
notes them down and otherwise does what the given one does. -/

namespace RealTimeStreaming

/-! ### Answers over a reliable sink -/

/-- No response of the exchange has failed, and none will. -/
structure Exchange.Sound (x : Exchange) : Prop where
  reliable : x.link.connection.behaviour.Reliable
  outcome : ∀ kind, x.outcome ≠ some (.error kind)

namespace Exchange.Sound

theorem respond {x : Exchange} (h : x.Sound) (status : UInt16) (reason : String) :
    (x.respond status reason).2.Sound := by
  have hok := Sink.write_of_reliable h.reliable (x.response status reason).encode
  have hb := x.link.connection.behaviour_write (x.response status reason).encode
  rcases hw : x.link.connection.write (x.response status reason).encode with ⟨result, sink⟩
  rw [hw] at hok hb
  dsimp only at hok hb
  subst hok
  simp only [Exchange.respond, hw]
  refine ⟨?_, ?_⟩
  · rw [hb]
    exact h.reliable
  · simp

theorem sendFrame {x : Exchange} (h : x.Sound) (channel : UInt8) (payload : Bytes) :
    (x.sendFrame channel payload).2.Sound := by
  refine ⟨?_, h.outcome⟩
  have hb := x.link.connection.behaviour_sendFrame channel payload
  simp only [Exchange.sendFrame]
  rw [hb]
  exact h.reliable

theorem run {α : Type} {x : Exchange} (h : x.Sound) (handler : Handler α) :
    (handler.run x).2.Sound := by
  induction handler generalizing x with
  | done value => exact h
  | header name value next ih => exact ih ⟨h.reliable, h.outcome⟩
  | body content next ih => exact ih ⟨h.reliable, h.outcome⟩
  | respond status reason next ih => exact ih _ (h.respond status reason)
  | sendFrame channel payload next ih => exact ih _ (h.sendFrame channel payload)
  | look next ih => exact ih _ h
  | start stream next ih => exact ih h

theorem takeOutcome {x : Exchange} (h : x.Sound) : x.takeOutcome.2.Sound :=
  ⟨h.reliable, by simp [Exchange.takeOutcome]⟩

theorem ensureAnswered {x : Exchange} (h : x.Sound) : (Controller.ensureAnswered x).Sound := by
  unfold Controller.ensureAnswered
  split
  · exact h
  · exact h.respond _ _

end Exchange.Sound

/-- Over a reliable sink a dispatched request never ends in an error. -/
theorem Controller.dispatch_of_sound {γ : Type} (controller : Controller γ) (r : Request) (s : γ)
    {x : Exchange} (h : x.Sound) :
    (∃ n, (controller.dispatch r s x).1 = .ok n) ∧
      (controller.dispatch r s x).2.2.link.connection.behaviour.Reliable := by
  have hb := h.run (controller.before r s)
  have hh := hb.run (controller.hook r.method r ((controller.before r s).run x).1)
  have ha := hh.ensureAnswered
  refine ⟨?_, (ha.takeOutcome.run _).reliable⟩
  simp only [dispatch, settle, Exchange.takeOutcome]
  split
  · exact ⟨_, rfl⟩
  · rename_i kind hk
    exact absurd hk (ha.outcome kind)
  · exact ⟨0, rfl⟩

/-! ### Hook calls -/

/-- A call of a hook: what the hook can see of the exchange and the request, and for the last
hook of a request what came of the answer. -/
inductive Call where
  | before (view : ExchangeView) (request : Request)
  /-- The hook that the method of the request goes to. -/
  | answer (view : ExchangeView) (request : Request)
  | after (outcome : Except RtspError Nat) (view : ExchangeView) (request : Request)

namespace Call

/-- The request that is answered by the call, if it is one to answer a request. -/
def answered? : Call → Option Request
  | .answer _ r => some r
  | _ => none

end Call

namespace Controller

variable {γ : Type}

/-- Notes a call of `hook` and makes it. -/
def note (call : ExchangeView → Request → Call) (hook : Request → γ → Handler γ) (r : Request)
    (s : γ × List Call) : Handler (γ × List Call) :=
  .look fun view => (hook r s.1).bind fun t => .done (t, s.2 ++ [call view r])

/-- The controller with a note of every hook call, in order. -/
def traced (c : Controller γ) : Controller (γ × List Call) where
  before := note .before c.before
  options := note .answer c.options
  describe := note .answer c.describe
  setup := note .answer c.setup
  play := note .answer c.play
  teardown := note .answer c.teardown
  unknown := note .answer c.unknown
  after outcome r s :=
    let noted := note (.after outcome) (fun r s => (c.after outcome r s).handler) r s
    ⟨noted, fun _ => (c.after outcome r s.1).bare.bind fun _ => trivial⟩

/-- The calls that a dispatch makes. -/
def calls (c : Controller γ) (r : Request) (s : γ) (x : Exchange) : List Call :=
  let (outcome, _, last) := c.settle r s x
  [.before x.view r, .answer ((c.before r s).run x).2.view r, .after outcome last.view r]

theorem run_note (call : ExchangeView → Request → Call) (hook : Request → γ → Handler γ)
    (r : Request) (s : γ) (log : List Call) (x : Exchange) :
    (note call hook r (s, log)).run x =
      ((((hook r s).run x).1, log ++ [call x.view r]), ((hook r s).run x).2) := by
  simp only [note, Handler.run, Handler.run_bind]

theorem hook_traced (c : Controller γ) (m : Method) :
    c.traced.hook m = note .answer (c.hook m) := by
  cases m <;> rfl

/-- Noting the calls changes nothing else. -/
theorem dispatch_traced (c : Controller γ) (r : Request) (s : γ) (log : List Call) (x : Exchange) :
    c.traced.dispatch r (s, log) x =
      ((c.dispatch r s x).1, ((c.dispatch r s x).2.1, log ++ c.calls r s x),
        (c.dispatch r s x).2.2) := by
  have hb := run_note .before c.before r s log x
  simp only [dispatch, settle, hook_traced, calls]
  rw [show c.traced.before r (s, log) = note .before c.before r (s, log) from rfl, hb]
  dsimp only
  rw [run_note]
  simp only [traced, run_note, List.append_assoc, List.cons_append, List.nil_append]

theorem filterMap_answered?_calls (c : Controller γ) (r : Request) (s : γ) (x : Exchange) :
    (c.calls r s x).filterMap Call.answered? = [r] := rfl

end Controller

end RealTimeStreaming
