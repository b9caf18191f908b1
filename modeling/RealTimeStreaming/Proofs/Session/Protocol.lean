import RealTimeStreaming.Proofs.Session.Acts
import RealTimeStreaming.Session.Script

/-! The dispatch of one request, for hooks that do what they like to the exchange. Which hooks are
called is seen by a controller that logs its calls; what they write is seen by their acts. A
request that they leave unanswered is answered with an internal error. -/

namespace RealTimeStreaming

/-! ### The last response -/

namespace Act

/-- What the dispatch does after the acts of the hooks. -/
def fallback (acts : List Act) : List Act :=
  if acts.any isResponse then [] else [.respond 500 "Internal Server Error"]

theorem any_isResponse_append_fallback (acts : List Act) :
    (acts ++ fallback acts).any isResponse = true := by
  unfold fallback
  split
  · rename_i h
    rw [List.append_nil, h]
  · rw [List.any_append]
    exact Bool.or_true _

theorem exists_last_response {acts : List Act} (h : acts.any isResponse = true) :
    ∃ earlier status reason later, acts = earlier ++ .respond status reason :: later ∧
      ∀ act ∈ later, act.isResponse = false := by
  induction acts using batch_induction with
  | last batch hopen =>
    obtain ⟨act, hm, hact⟩ := List.any_eq_true.1 h
    rw [hopen act hm] at hact
    cases hact
  | closed batch status reason rest hopen ih =>
    cases hrest : rest.any isResponse with
    | false =>
      refine ⟨batch, status, reason, rest, rfl, fun act hm => ?_⟩
      exact Bool.eq_false_iff.2 (List.any_eq_false.1 hrest act hm)
    | true =>
      obtain ⟨earlier, status', reason', later, rfl, hlater⟩ := ih hrest
      exact ⟨batch ++ .respond status reason :: earlier, status', reason', later, by simp, hlater⟩

/-- Acts without a response are answered with all that they stage, others stand as they are. -/
theorem writes_append_fallback (cseq : UInt32) (acts : List Act) :
    writes cseq (acts ++ fallback acts) =
      if acts.any isResponse then writes cseq acts
      else frames acts ++ [message cseq acts 500 "Internal Server Error"] := by
  unfold fallback
  split
  · rw [List.append_nil]
  · rename_i h
    have hopen : ∀ act ∈ acts, act.isResponse = false := fun act hm =>
      Bool.eq_false_iff.2 fun hact => h (List.any_eq_true.2 ⟨act, hm, hact⟩)
    rw [writes_of_closed hopen]
    rfl

end Act

namespace Exchange

theorem hasResponded_run (act : Act) (x : Exchange) :
    (act.run x).hasResponded = (x.hasResponded || act.isResponse) := by
  cases h : act.isResponse with
  | false =>
    rw [run_of_open h, Bool.or_false]
    rfl
  | true =>
    cases act with
    | respond status reason =>
      rw [Act.run, respond_eq, Bool.or_true]
      rfl
    | _ => cases h

theorem hasResponded_performAll (x : Exchange) (acts : List Act) :
    (x.performAll acts).hasResponded = (x.hasResponded || acts.any Act.isResponse) := by
  induction acts generalizing x with
  | nil => simp
  | cons act acts ih =>
    rw [performAll_cons, ih, hasResponded_run, List.any_cons, Bool.or_assoc]

theorem ensureAnswered_performAll {x : Exchange} (h : x.hasResponded = false) (acts : List Act) :
    Controller.ensureAnswered (x.performAll acts) = x.performAll (acts ++ Act.fallback acts) := by
  rw [Controller.ensureAnswered, hasResponded_performAll, h, Bool.false_or, Act.fallback]
  split
  · rw [List.append_nil]
  · rw [performAll_append]
    rfl

/-- The outcome is that of the last response, whatever came before it. -/
theorem outcome_of_last_response {x : Exchange} (hs : x.staged = []) (hb : x.body = none)
    (earlier : List Act) (status : UInt16) (reason : String) {later : List Act}
    (h : ∀ act ∈ later, act.isResponse = false) :
    let message := Act.message x.cseq (Act.openBatch earlier) status reason
    let written := (x.link.connection.writeEach (Act.writes x.cseq earlier)).write message
    (x.performAll (earlier ++ .respond status reason :: later)).outcome =
      some ((written.1.map fun _ => message.length).mapError IoError.kind) := by
  rw [performAll_append, performAll_cons, performAll_of_open h, Act.run,
    respond_performAll hs hb]

theorem takeOutcome_of_some {x : Exchange} {result : Except IoError Nat}
    (h : x.outcome = some (result.mapError IoError.kind)) :
    x.takeOutcome =
      (result.mapError fun e => .io (.plain e.kind), { x with outcome := none }) := by
  rw [takeOutcome, h]
  cases result <;> rfl

end Exchange

/-! ### The calls of the hooks -/

/-- The hook that a method goes to. -/
def Method.hookName : Method → HookName
  | .options => .options
  | .describe => .describe
  | .setup => .setup
  | .play => .play
  | .teardown => .teardown
  | _ => .unknown

/-- A call of a hook, with what it was called with. -/
inductive HookCall where
  | ahead (name : HookName) (request : Request)
  | after (outcome : Except RtspError Nat) (request : Request)

namespace Controller

variable {γ : Type}

/-- Makes a call of a hook and logs it. -/
def log (name : HookName) (hook : Request → γ → Handler γ) (r : Request)
    (s : γ × List HookCall) : Handler (γ × List HookCall) :=
  (hook r s.1).bind fun t => .done (t, s.2 ++ [.ahead name r])

/-- The controller with a log of the hooks that are called, in order. Every hook has its own
name in it. -/
def logged (c : Controller γ) : Controller (γ × List HookCall) where
  before := log .before c.before
  options := log .options c.options
  describe := log .describe c.describe
  setup := log .setup c.setup
  play := log .play c.play
  teardown := log .teardown c.teardown
  unknown := log .unknown c.unknown
  after outcome r s :=
    ⟨(c.after outcome r s.1).handler.bind fun t => .done (t, s.2 ++ [.after outcome r]),
      (c.after outcome r s.1).bare.bind fun _ => trivial⟩

theorem run_log (name : HookName) (hook : Request → γ → Handler γ) (r : Request) (s : γ)
    (calls : List HookCall) (x : Exchange) :
    (log name hook r (s, calls)).run x =
      ((((hook r s).run x).1, calls ++ [.ahead name r]), ((hook r s).run x).2) := by
  simp only [log, Handler.run_bind, Handler.run]

theorem hook_logged (c : Controller γ) (m : Method) :
    c.logged.hook m = log m.hookName (c.hook m) := by
  cases m <;> rfl

/-- What the two hooks ahead of the answer do to an exchange. -/
def hookActs (c : Controller γ) (r : Request) (s : γ) (x : Exchange) : List Act :=
  let (t, y) := (c.before r s).run x
  (c.before r s).acts x ++ (c.hook r.method r t).acts y

/-- The log has the hook ahead of all, the hook of the method and the one behind, and nothing
else is changed by it. -/
theorem dispatch_logged (c : Controller γ) (r : Request) (s : γ) (calls : List HookCall)
    (x : Exchange) :
    c.logged.dispatch r (s, calls) x =
      let (outcome, t, y) := c.dispatch r s x
      (outcome,
        (t, calls ++ [.ahead .before r, .ahead r.method.hookName r, .after outcome r]), y) := by
  have hbefore := run_log .before c.before r s calls x
  simp only [dispatch, settle, hook_logged]
  rw [show c.logged.before r (s, calls) = log .before c.before r (s, calls) from rfl, hbefore]
  dsimp only
  rw [run_log]
  simp only [logged, Handler.run_bind, Handler.run, List.append_assoc, List.cons_append,
    List.nil_append]

/-- The acts of the hooks are done, an answer is given if they have not, and the outcome taken. -/
theorem settle_eq_performAll (c : Controller γ) (r : Request) (s : γ) {x : Exchange}
    (h : x.hasResponded = false) :
    let acts := c.hookActs r s x
    let taken := (x.performAll (acts ++ Act.fallback acts)).takeOutcome
    (c.settle r s x).1 = taken.1 ∧ (c.settle r s x).2.2 = taken.2 := by
  have hacts : ((c.hook r.method r ((c.before r s).run x).1).run ((c.before r s).run x).2).2 =
      x.performAll (c.hookActs r s x) := by
    rw [hookActs, Exchange.performAll_append, ← Handler.run_eq_performAll,
      ← Handler.run_eq_performAll]
  intro acts taken
  simp only [settle, hacts, Exchange.ensureAnswered_performAll h]
  exact ⟨rfl, rfl⟩

/-- What the last hook does to the exchange, which has its answer then. -/
def afterActs (c : Controller γ) (r : Request) (s : γ) (x : Exchange) : List Act :=
  let (outcome, t, y) := c.settle r s x
  (c.after outcome r t).handler.acts y

theorem exists_sendFrame_of_mem_afterActs (c : Controller γ) (r : Request) (s : γ)
    (x : Exchange) :
    ∀ act ∈ c.afterActs r s x, ∃ channel payload, act = .sendFrame channel payload :=
  (c.after _ r _).bare.exists_sendFrame _

/-- The protocol of a dispatch. The hooks are called in order, each once. What they do to the
exchange is done, and if nothing of what the first two do is a response, an internal error takes
what they have staged. The outcome, which the last hook is told, is that of the last response: its
length, or the kind of its failure. What the last hook does is to send frames. Every response has
the sequence number of the exchange. -/
theorem dispatch_follows_protocol (c : Controller γ) (r : Request) (s : γ)
    (calls : List HookCall) (peer : Endpoint) (cseq : UInt32) (link : Link) :
    let x : Exchange := { peer, cseq, link }
    let acts := c.hookActs r s x
    let all := acts ++ Act.fallback acts
    let last := c.afterActs r s x
    let (outcome, t, y) := c.dispatch r s x
    c.logged.dispatch r (s, calls) x =
      (outcome,
        (t, calls ++ [.ahead .before r, .ahead r.method.hookName r, .after outcome r]), y) ∧
    (∀ act ∈ last, ∃ channel payload, act = .sendFrame channel payload) ∧
    y = Exchange.performAll { x.performAll all with outcome := none } last ∧
    y.link.connection =
      link.connection.writeEach (Act.writes cseq all ++ Act.frames last) ∧
    Act.writes cseq all =
      (if acts.any Act.isResponse then Act.writes cseq acts
        else Act.frames acts ++ [Act.message cseq acts 500 "Internal Server Error"]) ∧
    (∃ earlier status reason later, all = earlier ++ .respond status reason :: later ∧
      (∀ act ∈ later, act.isResponse = false) ∧
      let message := Act.message cseq (Act.openBatch earlier) status reason
      let written := (link.connection.writeEach (Act.writes cseq earlier)).write message
      outcome = (written.1.map fun _ => message.length).mapError fun e => .io (.plain e.kind)) ∧
    ∀ earlier status reason,
      ("CSeq", toString cseq) ∈ ((x.performAll earlier).response status reason).headers := by
  intro x acts all last
  have hlog := c.dispatch_logged r s calls x
  have hframes := c.exists_sendFrame_of_mem_afterActs r s x
  obtain ⟨houtcome, hexchange⟩ := c.settle_eq_performAll r s (x := x) rfl
  obtain ⟨earlier, status, reason, later, hall, hlater⟩ :=
    Act.exists_last_response (Act.any_isResponse_append_fallback acts)
  have hlast := Exchange.outcome_of_last_response (x := x) rfl rfl earlier status reason hlater
  rw [← hall] at hlast
  have htaken := Exchange.takeOutcome_of_some hlast
  have hsame : (c.dispatch r s x).1 = (c.settle r s x).1 := rfl
  rw [← hsame, htaken] at houtcome
  rw [htaken] at hexchange
  have hopen : ∀ act ∈ last, act.isResponse = false := by
    intro act hmem
    obtain ⟨channel, payload, rfl⟩ := hframes act hmem
    rfl
  have hdone : (c.dispatch r s x).2.2 =
      Exchange.performAll { x.performAll all with outcome := none } last := by
    simp only [dispatch, Handler.run_eq_performAll, last, afterActs, hexchange]
    rfl
  rcases hd : c.dispatch r s x with ⟨outcome, t, y⟩
  rw [hd] at hlog houtcome hdone
  have hy : y = Exchange.performAll { x.performAll all with outcome := none } last := hdone
  refine ⟨hlog, hframes, hy, ?_, Act.writes_append_fallback cseq acts,
    ⟨earlier, status, reason, later, hall, hlater, houtcome⟩, fun earlier status reason => ?_⟩
  · have hwrites :=
      congrArg (·.link.connection) (Exchange.performAll_eq_writes (x := x) rfl rfl all)
    rw [hy, Exchange.performAll_of_open hopen, Sink.writeEach_append]
    exact congrArg (Sink.writeEach · (Act.frames last)) hwrites
  · rw [Exchange.performAll_eq_writes (x := x) rfl rfl]
    exact List.mem_append_left _ (List.mem_cons_of_mem _ List.mem_cons_self)

end Controller

end RealTimeStreaming
