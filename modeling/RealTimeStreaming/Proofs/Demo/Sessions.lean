import RealTimeStreaming.Demo.Stage
import RealTimeStreaming.Proofs.Demo.Answers
import RealTimeStreaming.Proofs.Histories

/-! The sessions of a client of the demo server, as the client can tell them from the answers it
gets. A stream waits in a session from the SETUP that is answered with it until the next SETUP for
its kind, a TEARDOWN, or the PLAY that starts it; a PLAY starts what waits in its session, and the
answer to it is on the wire before the first packet of these streams. -/

namespace RealTimeStreaming

theorem Text.toString_uint64_injective {m n : UInt64} (h : toString m = toString n) : m = n := by
  have hread (k : UInt64) : readNat (UInt64.size - 1) (toString k).toList = .ok k.toNat :=
    readNat_toString (Nat.le_sub_one_of_lt k.toNat_lt)
  have heq := hread m
  rw [h, hread n] at heq
  exact UInt64.toNat_inj.1 (Except.ok.inj heq).symm

namespace Demo

/-! ### Steps -/

@[simp] theorem Stage.before_next (stage : Stage) (event : Event) :
    (stage.next event).before = stage := rfl

@[simp] theorem Stage.after_next (stage : Stage) (event : Event) :
    (stage.next event).after = stage.step event := rfl

@[simp] theorem Stage.event_next (stage : Stage) (event : Event) :
    (stage.next event).event = event := rfl

namespace Step

/-- The bytes that the step put on the connection. -/
def written (step : Step) : Bytes :=
  step.after.streams.link.connection.taken.drop step.before.streams.link.connection.taken.length

/-- The response that a client finds among the messages in these bytes, if there is just one. -/
def response? (step : Step) : Option Response :=
  match (Outgoing.readAll? step.written).map Outgoing.responses with
  | some [response] => some response
  | _ => none

def Starts (step : Step) (kind : StreamKind) : Prop :=
  kind ∈ step.started.map (·.kind)

instance (step : Step) (kind : StreamKind) : Decidable (step.Starts kind) :=
  inferInstanceAs (Decidable (kind ∈ step.started.map (·.kind)))

/-- The step is a request with the response that a client reads. -/
structure Answers (step : Step) (r : Request) (response : Response) : Prop where
  event : step.event.request? = some r
  response : step.response? = some response

/-- The response was written in one piece. Ahead of it nothing was sent but packets of streams that
had been started before, and the streams that the step started were started behind it. -/
def InOrder (step : Step) (response : Response) : Prop :=
  ∃ front later, step.before.streams.Sends front ∧
    step.after.streams = (((step.before.streams.sendAll front).write response).start
      (step.started.map (·.rtp))).sendAll later

/-- A SETUP for the kind was answered 200 and with the session. -/
def SetsUp (step : Step) (kind : StreamKind) (session : UInt64) : Prop :=
  ∃ r response, step.Answers r response ∧ r.method = .setup ∧ StreamKind.ofUri r.uri = kind ∧
    response.status = 200 ∧ ("Session", toString session) ∈ response.headers

/-- Behind the step no stream of the kind waits that waited before it: a SETUP for the kind was
answered 200, a TEARDOWN came, or a stream of the kind was started. -/
def Ends (step : Step) (kind : StreamKind) : Prop :=
  (∃ r response, step.Answers r response ∧ r.method = .setup ∧ StreamKind.ofUri r.uri = kind ∧
    response.status = 200) ∨
  (∃ r, step.event.request? = some r ∧ r.method = .teardown) ∨
  step.Starts kind

end Step

/-- By what has happened so far, a stream of the kind waits in the session, namely the one that
was set up by the given step. -/
def Waits (past : List Step) (kind : StreamKind) (session : UInt64) (setup : Step) : Prop :=
  ∃ front later, past = front ++ setup :: later ∧ setup.SetsUp kind session ∧
    ∀ step ∈ later, ¬ step.Ends kind

/-! ### One step -/

variable {past : List Step} {kind : StreamKind} {session : UInt64} {step setup : Step}

theorem Step.SetsUp.ends (h : step.SetsUp kind session) : step.Ends kind := by
  obtain ⟨r, response, hanswers, hmethod, huri, hstatus, -⟩ := h
  exact .inl ⟨r, response, hanswers, hmethod, huri, hstatus⟩

theorem waits_iff_since :
    Waits past kind session setup ↔
      Since (fun step => setup = step ∧ step.SetsUp kind session) (·.Ends kind) past := by
  constructor
  · rintro ⟨front, later, hpast, hsetup, hlater⟩
    exact ⟨front, setup, later, hpast, ⟨rfl, hsetup⟩, hlater⟩
  · rintro ⟨front, _, later, hpast, ⟨rfl, hsetup⟩, hlater⟩
    exact ⟨front, later, hpast, hsetup, hlater⟩

theorem waits_snoc :
    Waits (past ++ [step]) kind session setup ↔
      (setup = step ∧ step.SetsUp kind session) ∨
        Waits past kind session setup ∧ ¬ step.Ends kind := by
  rw [waits_iff_since, waits_iff_since, since_snoc]

/-- What went out ahead of the response and behind it are frames, so a client finds the response. -/
theorem Step.InOrder.wrote {response : Response} (h : step.InOrder response)
    (hr : step.before.streams.link.connection.behaviour.Reliable) :
    step.after.streams.link.connection.behaviour.Reliable ∧
      ∃ messages, Outgoing.responses messages = [response] ∧
        step.before.streams.link.connection.Wrote messages
          step.after.streams.link.connection := by
  obtain ⟨front, later, -, hafter⟩ := h
  obtain ⟨ahead, hahead, hnone, hkeeps⟩ := Streams.sendAll_writes hr front
  have hwrites := Sink.Wrote.response (hkeeps.symm ▸ hr) response
  have hworks := Streams.reliable_answered hr front response (step.started.map (·.rtp))
  obtain ⟨behind, hbehind, hnone', hkept⟩ := Streams.sendAll_writes hworks later
  rw [← hafter] at hbehind hkept
  refine ⟨hkept.symm ▸ hworks, ahead ++ ([.response response] ++ behind), ?_,
    hahead.trans (hwrites.trans hbehind)⟩
  simp only [Outgoing.responses, List.filterMap_append] at hnone hnone' ⊢
  rw [hnone, hnone']
  rfl

theorem Step.InOrder.response?_eq {response : Response} (h : step.InOrder response)
    (hr : step.before.streams.link.connection.behaviour.Reliable) (hplain : response.Plain) :
    step.response? = some response := by
  obtain ⟨-, messages, hone, hwrote⟩ := h.wrote hr
  obtain ⟨wire, htaken, hread⟩ := hwrote.exists_wire fun other hother => by
    have hmem : other ∈ Outgoing.responses messages := List.mem_filterMap.2 ⟨_, hother, rfl⟩
    rw [hone, List.mem_singleton] at hmem
    exact hmem ▸ hplain
  rw [response?, written, htaken, List.drop_left, hread, Option.map_some, hone]

/-- A request is answered with the response, and the player is `q` then. -/
structure Serves (step : Step) (r : Request) (response : Response) (q : Player) : Prop where
  answers : step.Answers r response
  ordered : step.InOrder response
  player : step.after.player = q
  works : step.after.streams.link.connection.behaviour.Reliable

theorem serves_of_answers {stage : Stage} {r : Request} {status : UInt16} {reason : String}
    {headers : List (String × String)} {body : Option Bytes} {started : List StartedStream}
    {q : Player} (h : stage.player.Answers r status reason headers body (started.map (·.rtp)) q)
    (hq : q.started = stage.player.started ++ started)
    (hr : stage.streams.link.connection.behaviour.Reliable) (ahead : List Burst) :
    Serves (stage.next (.request r ahead)) r (answer r.cseq status reason headers body) q := by
  obtain ⟨front, later, x, hdispatch, hfront, hx⟩ :=
    h.dispatchAmong stage.player.peer stage.streams hr ahead
  have hstep : stage.step (.request r ahead) = { player := q, streams := x.streams } := by
    simp only [Stage.step, hdispatch]
  have hstarted : (stage.next (.request r ahead)).started = started := by
    simp only [Step.started, Stage.before_next, Stage.after_next, hstep, hq, List.drop_left]
  have hordered : (stage.next (.request r ahead)).InOrder
      (answer r.cseq status reason headers body) := by
    refine ⟨front, later, hfront, ?_⟩
    rw [hstarted, Stage.before_next, Stage.after_next, hstep, hx]
  constructor
  case answers => exact ⟨rfl, hordered.response?_eq hr (plain_answer _ _ _ h.reason h.headers)⟩
  case ordered => exact hordered
  case player => rw [Stage.after_next, hstep]
  case works => exact (hordered.wrote hr).1

/-- A request that starts no streams. -/
theorem serves_of_idle {stage : Stage} {r : Request} {status : UInt16} {reason : String}
    {headers : List (String × String)} {body : Option Bytes} {q : Player}
    (h : stage.player.Answers r status reason headers body [] q)
    (hq : q.started = stage.player.started)
    (hr : stage.streams.link.connection.behaviour.Reliable) (ahead : List Burst) :
    Serves (stage.next (.request r ahead)) r (answer r.cseq status reason headers body) q := by
  have hnone : stage.player.Answers r status reason headers body
      (([] : List StartedStream).map (·.rtp)) q := h
  exact serves_of_answers hnone (by rw [hq, List.append_nil]) hr ahead

namespace Serves

variable {r : Request} {response : Response} {q : Player}

theorem setsUp_iff (h : Serves step r response q) :
    step.SetsUp kind session ↔ r.method = .setup ∧ StreamKind.ofUri r.uri = kind ∧
      response.status = 200 ∧ ("Session", toString session) ∈ response.headers := by
  constructor
  · rintro ⟨r', response', hanswers, hrest⟩
    cases h.answers.event.symm.trans hanswers.event
    cases h.answers.response.symm.trans hanswers.response
    exact hrest
  · intro hrest
    exact ⟨r, response, h.answers, hrest⟩

theorem ends_iff (h : Serves step r response q) :
    step.Ends kind ↔
      (r.method = .setup ∧ StreamKind.ofUri r.uri = kind ∧ response.status = 200) ∨
        r.method = .teardown ∨ step.Starts kind := by
  constructor
  · rintro (⟨r', response', hanswers, hrest⟩ | ⟨r', hevent, hmethod⟩ | hstarts)
    · cases h.answers.event.symm.trans hanswers.event
      cases h.answers.response.symm.trans hanswers.response
      exact .inl hrest
    · cases h.answers.event.symm.trans hevent
      exact .inr (.inl hmethod)
    · exact .inr (.inr hstarts)
  · rintro (hrest | hmethod | hstarts)
    · exact .inl ⟨r, response, h.answers, hrest⟩
    · exact .inr (.inl ⟨r, h.answers.event, hmethod⟩)
    · exact .inr (.inr hstarts)

/-- Only a SETUP that succeeds, a TEARDOWN and a start end the wait for a kind. -/
theorem not_ends (h : Serves step r response q)
    (hsetup : r.method = .setup → StreamKind.ofUri r.uri = kind → response.status ≠ 200)
    (hteardown : r.method ≠ .teardown) (hstarts : ¬ step.Starts kind) : ¬ step.Ends kind := by
  rw [h.ends_iff]
  rintro (⟨hm, huri, hok⟩ | hm | hs)
  · exact hsetup hm huri hok
  · exact hteardown hm
  · exact hstarts hs

theorem not_setsUp (h : Serves step r response q) (hsetup : r.method ≠ .setup) :
    ¬ step.SetsUp kind session := fun hs => hsetup (h.setsUp_iff.1 hs).1

theorem started_of_append (h : Serves step r response q) {ready : List StartedStream}
    (hq : q.started = step.before.player.started ++ ready) : step.started = ready := by
  rw [Step.started, h.player, hq, List.drop_left]

theorem started_of_eq (h : Serves step r response q)
    (hq : q.started = step.before.player.started) : step.started = [] :=
  h.started_of_append (by rw [hq, List.append_nil])

end Serves

/-! ### What the player remembers -/

/-- The stream of a kind that the player keeps is the one that waits by what has happened. -/
structure Remembers (past : List Step) (kind : StreamKind) (p : Player) : Prop where
  kept : ∀ session setup, Waits past kind session setup →
    ∃ rtp, p.pending kind = some { session, rtp } ∧
      setup.after.player.pending kind = some { session, rtp }
  waits : ∀ session rtp, p.pending kind = some { session, rtp } →
    ∃ setup, Waits past kind session setup

namespace Remembers

theorem waits_iff {p : Player} (h : Remembers past kind p) :
    (∃ setup, Waits past kind session setup) ↔ ∃ rtp, p.pending kind = some { session, rtp } := by
  constructor
  · rintro ⟨setup, hwaits⟩
    obtain ⟨rtp, hpending, -⟩ := h.kept session setup hwaits
    exact ⟨rtp, hpending⟩
  · rintro ⟨rtp, hpending⟩
    exact h.waits session rtp hpending

theorem of_setsUp {rtp : Rtp.Sender}
    (hpending : step.after.player.pending kind = some { session, rtp })
    (hset : ∀ other, step.SetsUp kind other ↔ other = session) :
    Remembers (past ++ [step]) kind step.after.player := by
  have hends : step.Ends kind := ((hset session).2 rfl).ends
  constructor
  · intro other setup hwaits
    obtain ⟨rfl, hother⟩ | ⟨-, hnot⟩ := waits_snoc.1 hwaits
    · obtain rfl := (hset other).1 hother
      exact ⟨rtp, hpending, hpending⟩
    · exact absurd hends hnot
  · intro other rtp' hother
    cases hpending.symm.trans hother
    exact ⟨step, waits_snoc.2 (.inl ⟨rfl, (hset _).2 rfl⟩)⟩

theorem of_ends (hpending : step.after.player.pending kind = none) (hends : step.Ends kind)
    (hset : ∀ session, ¬ step.SetsUp kind session) :
    Remembers (past ++ [step]) kind step.after.player := by
  constructor
  · intro session setup hwaits
    obtain ⟨rfl, hsession⟩ | ⟨-, hnot⟩ := waits_snoc.1 hwaits
    · exact absurd hsession (hset session)
    · exact absurd hends hnot
  · intro session rtp hsession
    cases hpending.symm.trans hsession

theorem of_not_ends (h : Remembers past kind step.before.player)
    (hpending : step.after.player.pending kind = step.before.player.pending kind)
    (hends : ¬ step.Ends kind) : Remembers (past ++ [step]) kind step.after.player := by
  constructor
  · intro session setup hwaits
    obtain ⟨rfl, hsession⟩ | ⟨hbefore, -⟩ := waits_snoc.1 hwaits
    · exact absurd hsession.ends hends
    · rw [hpending]
      exact h.kept session setup hbefore
  · intro session rtp hsession
    rw [hpending] at hsession
    obtain ⟨setup, hbefore⟩ := h.waits session rtp hsession
    exact ⟨setup, waits_snoc.2 (.inr ⟨hbefore, hends⟩)⟩

end Remembers

/-! ### Requests -/

section

variable {r : Request} {response : Response} {q : Player}

/-- How a PLAY is answered and what it starts, behind what has happened. -/
structure Plays (past : List Step) (step : Step) (r : Request) (response : Response) : Prop where
  ok_iff : response.status = 200 ↔
    ∃ session, Names r session ∧ ∃ kind setup, Waits past kind session setup
  malformed_iff : response.status = 400 ↔ ∀ session, ¬ Names r session
  unknown_iff : response.status = 454 ↔
    ∃ session, Names r session ∧ ∀ kind setup, ¬ Waits past kind session setup
  idle : response.status ≠ 200 → step.started = []
  starts_iff : ∀ session, Names r session → ∀ kind,
    step.Starts kind ↔ ∃ setup, Waits past kind session setup
  once : (step.started.map (·.kind)).Nodup
  /-- What is started is the very stream that was set up. -/
  same : ∀ session, Names r session → ∀ stream ∈ step.started, ∀ setup,
    Waits past stream.kind session setup →
      setup.after.player.pending stream.kind = some { session, rtp := stream.rtp }

/-- What holds of any request that is answered, behind what has happened. -/
structure Lawful (past : List Step) (step : Step) (r : Request) (response : Response) : Prop where
  answers : step.Answers r response
  ordered : step.InOrder response
  play : r.method = .play → Plays past step r response
  idle : r.method ≠ .play → step.started = []
  /-- A SETUP that succeeds confirms one session, the one it names if it names one. -/
  confirmed : r.method = .setup → response.status = 200 → ∃ session,
    (∀ other, ("Session", toString other) ∈ response.headers ↔ other = session) ∧
      ∀ other, Names r other → other = session
  setup : r.method = .setup → response.status ≠ 200 →
    step.after.player.pending = step.before.player.pending

/-- A request is answered as it has to be, and the player remembers what it has to. -/
structure Treats (past : List Step) (step : Step) (r : Request) (response : Response)
    (q : Player) : Prop where
  serves : Serves step r response q
  started : q.started = step.before.player.started ++ step.started
  lawful : Lawful past step r response
  remembers : ∀ kind, Remembers (past ++ [step]) kind step.after.player

theorem not_starts (h : step.started = []) : ¬ step.Starts kind := by
  simp [Step.Starts, h]

theorem mem_headers_setup {cseq : UInt32} {status : UInt16} {confirmation : String}
    {body : Option Bytes} {other : UInt64} :
    ("Session", toString other) ∈ (answer cseq status "OK"
        [("Transport", confirmation), ("Session", toString session)] body).headers ↔
      other = session := by
  simp only [answer, List.cons_append, List.nil_append, List.mem_cons, List.not_mem_nil, or_false,
    Prod.mk.injEq, true_and]
  constructor
  · rintro (⟨hname, -⟩ | ⟨hname, -⟩ | ⟨hname, -⟩ | hvalue)
    · exact absurd hname (by decide)
    · exact absurd hname (by decide)
    · exact absurd hname (by decide)
    · exact Text.toString_uint64_injective hvalue
  · rintro rfl
    simp

variable {stage : Stage} {ahead : List Burst}

/-- A request other than PLAY starts nothing. -/
theorem treats_of_idle (hm : r.method ≠ .play) (hserves : Serves step r response q)
    (hstarted : q.started = step.before.player.started)
    (hconfirmed : r.method = .setup → response.status = 200 → ∃ session,
      (∀ other, ("Session", toString other) ∈ response.headers ↔ other = session) ∧
        ∀ other, Names r other → other = session)
    (hfailed : r.method = .setup → response.status ≠ 200 →
      q.pending = step.before.player.pending)
    (hremembers : ∀ kind, Remembers (past ++ [step]) kind step.after.player) :
    Treats past step r response q := by
  have hnone := hserves.started_of_eq hstarted
  constructor
  case serves => exact hserves
  case started => rw [hnone, List.append_nil, hstarted]
  case lawful =>
    refine ⟨hserves.answers, hserves.ordered, fun hplay => absurd hplay hm, fun _ => hnone,
      hconfirmed, fun hsetup hstatus => ?_⟩
    rw [hserves.player]
    exact hfailed hsetup hstatus
  case remembers => exact hremembers

theorem treats_setup (hm : r.method = .setup)
    (hr : stage.streams.link.connection.behaviour.Reliable)
    (hpast : ∀ kind, Remembers past kind stage.player) :
    ∃ response q, Treats past (stage.next (.request r ahead)) r response q := by
  have hplay : r.method ≠ .play := by
    rw [hm]
    decide
  have hteardown : r.method ≠ .teardown := by
    rw [hm]
    decide
  cases Player.answers_setup stage.player hm with
  | joined confirmation session rtp q hnamed hanswers hpending hstarted =>
    have hserves := serves_of_idle hanswers hstarted hr ahead
    have hnone := hserves.started_of_eq hstarted
    refine ⟨_, q, treats_of_idle hplay hserves hstarted
      (fun _ _ => ⟨session, fun other => mem_headers_setup, hnamed⟩)
      (fun _ hfailed => absurd rfl hfailed) fun kind => ?_⟩
    by_cases hkind : kind = StreamKind.ofUri r.uri
    · have hkept : (stage.next (.request r ahead)).after.player.pending kind =
          some { session, rtp } := by
        rw [hserves.player, hpending, if_pos hkind]
      apply Remembers.of_setsUp hkept
      intro other
      rw [hserves.setsUp_iff, mem_headers_setup]
      simp [hm, hkind, answer]
    · apply (hpast kind).of_not_ends
      · rw [hserves.player, hpending, if_neg hkind, Stage.before_next]
      · exact hserves.not_ends (fun _ huri => absurd huri.symm hkind) hteardown (not_starts hnone)
  | refused status reason q hstatus hanswers hpending hstarted =>
    have hserves := serves_of_idle hanswers hstarted hr ahead
    have hnone := hserves.started_of_eq hstarted
    refine ⟨_, q, treats_of_idle hplay hserves hstarted (fun _ hok => absurd hok hstatus)
      (fun _ _ => hpending) fun kind => ?_⟩
    apply (hpast kind).of_not_ends
    · rw [hserves.player]
      exact congrFun hpending kind
    · exact hserves.not_ends (fun _ _ => hstatus) hteardown (not_starts hnone)

theorem treats_teardown (hm : r.method = .teardown)
    (hr : stage.streams.link.connection.behaviour.Reliable) :
    ∃ response q, Treats past (stage.next (.request r ahead)) r response q := by
  have hsetup : r.method ≠ .setup := by
    rw [hm]
    decide
  obtain ⟨q, hanswers, hpending, hstarted⟩ := Player.answers_teardown stage.player hm
  have hserves := serves_of_idle hanswers hstarted hr ahead
  refine ⟨_, q, treats_of_idle (by rw [hm]; decide) hserves hstarted
    (fun h => absurd h hsetup) (fun h => absurd h hsetup) fun kind => ?_⟩
  apply Remembers.of_ends
  · rw [hserves.player]
    exact hpending kind
  · exact hserves.ends_iff.2 (.inr (.inl hm))
  · exact fun session => hserves.not_setsUp hsetup

theorem treats_other (hsetup : r.method ≠ .setup) (hplay : r.method ≠ .play)
    (hteardown : r.method ≠ .teardown) (hr : stage.streams.link.connection.behaviour.Reliable)
    (hpast : ∀ kind, Remembers past kind stage.player) :
    ∃ response q, Treats past (stage.next (.request r ahead)) r response q := by
  obtain ⟨status, reason, headers, body, hanswers⟩ :=
    Player.answers_other stage.player hsetup hplay hteardown
  have hserves := serves_of_idle hanswers rfl hr ahead
  refine ⟨_, _, treats_of_idle hplay hserves rfl (fun h => absurd h hsetup)
    (fun h => absurd h hsetup) fun kind => ?_⟩
  apply (hpast kind).of_not_ends
  · rw [hserves.player, Stage.before_next]
  · exact hserves.not_ends (fun h => absurd h hsetup) hteardown
      (not_starts (hserves.started_of_eq rfl))

/-- A PLAY takes from the player the streams that it starts. -/
theorem treats_of_plays (hm : r.method = .play)
    (hpast : ∀ kind, Remembers past kind step.before.player) (hserves : Serves step r response q)
    (hstarted : q.started = step.before.player.started ++ step.started)
    (hplays : Plays past step r response)
    (hleft : ∀ kind, q.pending kind =
      if step.Starts kind then none else step.before.player.pending kind) :
    Treats past step r response q := by
  have hsetup : r.method ≠ .setup := by
    rw [hm]
    decide
  refine ⟨hserves, hstarted, ⟨hserves.answers, hserves.ordered, fun _ => hplays,
    fun hother => absurd hm hother, fun h => absurd h hsetup, fun h => absurd h hsetup⟩,
    fun kind => ?_⟩
  have hkept := hleft kind
  rw [← hserves.player] at hkept
  by_cases hstarts : step.Starts kind
  · rw [if_pos hstarts] at hkept
    exact .of_ends hkept (hserves.ends_iff.2 (.inr (.inr hstarts))) fun _ =>
      hserves.not_setsUp hsetup
  · rw [if_neg hstarts] at hkept
    apply (hpast kind).of_not_ends hkept
    exact hserves.not_ends (fun h => absurd h hsetup) (by rw [hm]; decide) hstarts

theorem plays_of_takes (hpast : ∀ kind, Remembers past kind step.before.player)
    (hsession : Names r session) {ready : List StartedStream}
    (htakes : Player.Takes session step.before.player ready q) (hstarted : step.started = ready)
    (hstatus : response.status = if ready = [] then 454 else 200) :
    Plays past step r response := by
  have hwaits (kind : StreamKind) :
      kind ∈ ready.map (·.kind) ↔ ∃ setup, Waits past kind session setup := by
    rw [htakes.mem_kinds, (hpast kind).waits_iff]
  have hnone : ready = [] ↔ ∀ kind setup, ¬ Waits past kind session setup := by
    have hkinds : ready = [] ↔ ready.map (·.kind) = [] := List.map_eq_nil_iff.symm
    rw [hkinds, List.eq_nil_iff_forall_not_mem]
    simp only [hwaits, not_exists]
  have hok : response.status = 200 ↔ ready ≠ [] := by
    rw [hstatus]
    split <;> simp_all
  have hunknown : response.status = 454 ↔ ready = [] := by
    rw [hstatus]
    split <;> simp_all
  constructor
  case ok_iff =>
    rw [hok, hsession.exists_iff, Ne, hnone]
    simp only [not_forall, not_not]
  case malformed_iff =>
    constructor
    · intro hbad
      rw [hstatus] at hbad
      split at hbad <;> exact absurd hbad (by decide)
    · intro hnot
      exact absurd hsession (hnot session)
  case unknown_iff => rw [hunknown, hsession.exists_iff, hnone]
  case idle =>
    intro hfailed
    rw [hstarted]
    exact not_not.1 (mt hok.2 hfailed)
  case starts_iff =>
    intro session' h kind
    obtain rfl := hsession.unique h
    rw [Step.Starts, hstarted]
    exact hwaits kind
  case once =>
    rw [hstarted]
    exact htakes.kinds
  case same =>
    intro session' h stream hstream setup hsetup
    obtain rfl := hsession.unique h
    rw [hstarted] at hstream
    obtain ⟨rtp, hpending, hkept⟩ := (hpast stream.kind).kept _ setup hsetup
    cases (htakes.waited stream hstream).symm.trans hpending
    exact hkept

theorem plays_of_malformed (hmalformed : ∀ session, ¬ Names r session)
    (hnone : step.started = []) (hstatus : response.status = 400) :
    Plays past step r response := by
  have hnot {P : UInt64 → Prop} : ¬ ∃ session, Names r session ∧ P session :=
    fun ⟨session, hsession, _⟩ => hmalformed session hsession
  constructor
  case ok_iff =>
    simp only [hstatus, hnot, iff_false]
    decide
  case malformed_iff => exact ⟨fun _ => hmalformed, fun _ => hstatus⟩
  case unknown_iff =>
    simp only [hstatus, hnot, iff_false]
    decide
  case idle => exact fun _ => hnone
  case starts_iff => exact fun session hsession => absurd hsession (hmalformed session)
  case once => simp [hnone]
  case same => exact fun session hsession => absurd hsession (hmalformed session)

theorem treats_play (hm : r.method = .play) (hr : stage.streams.link.connection.behaviour.Reliable)
    (hpast : ∀ kind, Remembers past kind stage.player) :
    ∃ response q, Treats past (stage.next (.request r ahead)) r response q := by
  obtain ⟨hmalformed, hanswers⟩ | ⟨session, hsession, ready, q, htakes, h⟩ :=
    Player.answers_play stage.player hm
  · have hserves := serves_of_idle hanswers rfl hr ahead
    have hnone := hserves.started_of_eq rfl
    refine ⟨_, _, treats_of_plays hm hpast hserves (by simp [hnone])
      (plays_of_malformed hmalformed hnone rfl) fun kind => ?_⟩
    rw [if_neg (not_starts hnone), Stage.before_next]
  · obtain ⟨hready, hanswers⟩ | ⟨hready, hanswers⟩ := h
    · have hserves := serves_of_idle hanswers htakes.started hr ahead
      have hstarted := hserves.started_of_eq htakes.started
      rw [← hready] at hstarted
      refine ⟨_, _, treats_of_plays hm hpast hserves ?_
        (plays_of_takes hpast hsession htakes hstarted (if_pos hready).symm) fun kind => ?_⟩
      · rw [hstarted, hready, List.append_nil, htakes.started, Stage.before_next]
      · simp only [Step.Starts, hstarted]
        exact htakes.left kind
    · have hserves := serves_of_answers hanswers rfl hr ahead
      have hstarted := hserves.started_of_append rfl
      refine ⟨_, _, treats_of_plays hm hpast hserves (by rw [hstarted, Stage.before_next])
        (plays_of_takes hpast hsession htakes hstarted (if_neg hready).symm) fun kind => ?_⟩
      simp only [Step.Starts, hstarted]
      exact htakes.left kind

/-- Whatever is asked, it is answered as it has to be. -/
theorem treats_request (r : Request) (ahead : List Burst)
    (hr : stage.streams.link.connection.behaviour.Reliable)
    (hpast : ∀ kind, Remembers past kind stage.player) :
    ∃ response q, Treats past (stage.next (.request r ahead)) r response q := by
  by_cases hsetup : r.method = .setup
  · exact treats_setup hsetup hr hpast
  by_cases hplay : r.method = .play
  · exact treats_play hplay hr hpast
  by_cases hteardown : r.method = .teardown
  · exact treats_teardown hteardown hr
  exact treats_other hsetup hplay hteardown hr hpast

end

end Demo

end RealTimeStreaming
