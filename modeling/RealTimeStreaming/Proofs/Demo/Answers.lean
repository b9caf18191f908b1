import RealTimeStreaming.Demo.Player
import RealTimeStreaming.Proofs.Session.Acts
import RealTimeStreaming.Proofs.Session.Answering
import RealTimeStreaming.Proofs.Session.Streaming

/-! What the demo server answers. Over a connection that works every request gets one response,
whose texts stay on their lines; what a request does to the streams is said once for each kind of
request and each way it can end. -/

namespace RealTimeStreaming

/-! ### One response -/

namespace Handler

variable {α : Type}

/-- Stages headers and a body ahead of what comes next. -/
def staging : List (String × String) → Option Bytes → Handler α → Handler α
  | (name, value) :: rest, content, next => .header name value (staging rest content next)
  | [], some content, next => .body content next
  | [], none, next => next

/-- The handler stages these headers and this body and responds. If the response could be written
it starts these streams and is done with the value. -/
def Replies (h : Handler α) (status : UInt16) (reason : String)
    (headers : List (String × String)) (body : Option Bytes) (started : List Rtp.Sender)
    (value : α) : Prop :=
  ∃ next, h = staging headers body (.respond status reason next) ∧
    ∀ n, next (.ok n) = (startAll started).bind fun _ => .done value

theorem run_staging (headers : List (String × String)) (body : Option Bytes) (next : Handler α)
    (x : Exchange) :
    (staging headers body next).run x =
      next.run { x with staged := x.staged ++ headers, body := body.or x.body } := by
  induction headers generalizing x with
  | nil => cases body <;> simp [staging, run, Exchange.stageBody]
  | cons header headers ih => simp [staging, run, ih, Exchange.stageHeader]

/-- The turns of the streams during the staging are as one turn ahead of it. -/
theorem runAmong_staging (headers : List (String × String)) (body : Option Bytes)
    (next : Handler α) (x : SharedExchange) :
    ∃ packets y, (staging headers body next).runAmong x = next.runAmong y ∧
      y.streams = x.streams.sendAll packets ∧
      y.exchange = { x.exchange with
        link := y.streams.link
        staged := x.exchange.staged ++ headers
        body := body.or x.exchange.body } := by
  induction headers generalizing x with
  | nil =>
    cases body with
    | none => exact ⟨[], x, rfl, rfl, by simp [SharedExchange.streams]⟩
    | some content =>
      refine ⟨x.ahead.headD [], { x.yield with exchange := x.yield.exchange.stageBody content },
        rfl, rfl, ?_⟩
      rw [List.append_nil]
      rfl
  | cons header headers ih =>
    obtain ⟨packets, y, hrun, hstreams, hexchange⟩ :=
      ih { x.yield with exchange := x.yield.exchange.stageHeader header.1 header.2 }
    refine ⟨x.ahead.headD [] ++ packets, y, hrun, ?_, ?_⟩
    · rw [Streams.sendAll_append]
      exact hstreams
    · rw [hexchange]
      simp only [Exchange.stageHeader, List.append_assoc, List.singleton_append]
      rfl

end Handler

namespace Response

theorem oneLine_toString (n : Nat) : OneLine (toString n) := by
  constructor <;> intro hm <;> exact absurd (Text.isDigit_of_mem_toString hm) (by decide)

theorem oneLine_append {s t : String} (hs : OneLine s) (ht : OneLine t) : OneLine (s ++ t) := by
  simp only [OneLine, String.toList_append, List.mem_append, not_or]
  exact ⟨⟨hs.1, ht.1⟩, hs.2, ht.2⟩

/-- A header that can stand in a response beside those of the server. -/
def PlainHeader (header : String × String) : Prop :=
  OneLine header.1 ∧ ':' ∉ header.1.toList ∧ OneLine header.2 ∧ announcesBody header = false

instance (header : String × String) : Decidable (PlainHeader header) :=
  inferInstanceAs (Decidable (OneLine header.1 ∧ ':' ∉ header.1.toList ∧ OneLine header.2 ∧
    announcesBody header = false))

end Response

namespace Demo

open Response (OneLine PlainHeader)

/-- The response to a request with the given sequence number. -/
def answer (cseq : UInt32) (status : UInt16) (reason : String) (headers : List (String × String))
    (body : Option Bytes) : Response where
  status := status
  reason := reason
  headers := [("Server", Response.agent), ("CSeq", toString cseq)] ++ headers
  body := body

theorem plainHeader_of_name {name value : String}
    (hname : OneLine name ∧ ':' ∉ name.toList ∧ Text.sameUpToCase name Response.lengthName = false)
    (hvalue : OneLine value) : PlainHeader (name, value) :=
  ⟨hname.1, hname.2.1, hvalue, hname.2.2⟩

theorem plain_answer (cseq : UInt32) (status : UInt16) {reason : String}
    {headers : List (String × String)} (body : Option Bytes) (hreason : OneLine reason)
    (hheaders : ∀ header ∈ headers, PlainHeader header) :
    (answer cseq status reason headers body).Plain := by
  have hall : ∀ header ∈ (answer cseq status reason headers body).headers, PlainHeader header := by
    intro header hm
    simp only [answer, List.cons_append, List.nil_append, List.mem_cons] at hm
    obtain rfl | rfl | hm := hm
    · decide
    · exact plainHeader_of_name (by decide) (Response.oneLine_toString cseq.toNat)
    · exact hheaders header hm
  exact ⟨hreason, fun header hm => ⟨(hall header hm).1, (hall header hm).2.1⟩,
    fun header hm => (hall header hm).2.2.1, fun header hm => (hall header hm).2.2.2⟩

/-- The request has a Session header, and the number before any semicolon in it is the session. -/
def Names (r : Request) (session : UInt64) : Prop :=
  ∃ value, r.header? "Session" = some value ∧
    Text.Decimal (Text.trimBlanks (value.toList.takeWhile (· != ';'))) session.toNat

theorem sessionOf?_eq_ok_iff {r : Request} {session : UInt64} :
    sessionOf? r = some (.ok session) ↔ Names r session := by
  simp only [sessionOf?, Option.map_eq_some_iff, Text.readUInt64_eq_ok_iff, Names]

theorem Names.unique {r : Request} {m n : UInt64} (hm : Names r m) (hn : Names r n) : m = n := by
  cases (sessionOf?_eq_ok_iff.2 hm).symm.trans (sessionOf?_eq_ok_iff.2 hn)
  rfl

theorem Names.exists_iff {r : Request} {session : UInt64} (h : Names r session)
    {P : UInt64 → Prop} : (∃ other, Names r other ∧ P other) ↔ P session := by
  constructor
  · rintro ⟨other, hother, hp⟩
    exact h.unique hother ▸ hp
  · intro hp
    exact ⟨session, h, hp⟩

theorem TransportFault.reply_fails (fault : TransportFault) :
    fault.reply.1 ≠ 200 ∧ OneLine fault.reply.2 := by
  cases fault <;> decide

namespace Player

variable {p q : Player} {r : Request} {status : UInt16} {reason : String}
  {headers : List (String × String)} {body : Option Bytes}

/-- The request is answered like this, starts these streams and leaves the player as `q`. -/
structure Answers (p : Player) (r : Request) (status : UInt16) (reason : String)
    (headers : List (String × String)) (body : Option Bytes) (started : List Rtp.Sender)
    (q : Player) : Prop where
  replies : (controller.hook r.method r p).Replies status reason headers body started q
  reason : OneLine reason
  headers : ∀ header ∈ headers, PlainHeader header

variable {started : List Rtp.Sender}

/-- A dispatch writes the response and nothing else. -/
theorem Answers.dispatch (h : Answers p r status reason headers body started q) {link : Link}
    (hr : link.connection.behaviour.Reliable) (peer : Endpoint) :
    ∃ after, controller.dispatch r p { peer, cseq := r.cseq, link } =
        (.ok (answer r.cseq status reason headers body).encode.length, q,
          { peer, cseq := r.cseq, link := after }) ∧
      after.connection.taken =
        link.connection.taken ++ (answer r.cseq status reason headers body).encode ∧
      after.connection.behaviour = link.connection.behaviour := by
  obtain ⟨hrespond, htaken, hkeeps⟩ := Exchange.respond_of_reliable
    { peer, cseq := r.cseq, link, staged := headers, body } hr status reason
  refine ⟨(Exchange.respond { peer, cseq := r.cseq, link, staged := headers, body } status
    reason).2.link, ?_, by rw [hrespond]; exact htaken, by rw [hrespond]; exact hkeeps⟩
  obtain ⟨next, hhook, hnext⟩ := h.replies
  have hbefore : (controller.before r p).run { peer, cseq := r.cseq, link } =
      (p, { peer, cseq := r.cseq, link }) := rfl
  have hrun : (controller.hook r.method r p).run { peer, cseq := r.cseq, link } =
      (q, (Exchange.respond { peer, cseq := r.cseq, link, staged := headers, body } status
        reason).2) := by
    rw [hhook, Handler.run_staging, List.nil_append, Option.or_none]
    simp only [Handler.run, hrespond, hnext, Handler.run_bind, Handler.run_startAll]
  simp only [Controller.dispatch, Controller.settle, hbefore, hrun, hrespond,
    Controller.ensureAnswered, Exchange.hasResponded, Option.isSome_some, if_true,
    Exchange.takeOutcome]
  rfl

/-- Among streams the response is written in one piece behind packets of streams that were started
before, and the streams that the request starts are started behind it. -/
theorem Answers.dispatchAmong (h : Answers p r status reason headers body started q)
    (peer : Endpoint) (streams : Streams) (hr : streams.link.connection.behaviour.Reliable)
    (ahead : List Burst) :
    let response := answer r.cseq status reason headers body
    ∃ front later x,
      controller.dispatchAmong r p (streams.exchange peer r.cseq ahead) =
        (.ok response.encode.length, q, x) ∧
      streams.Sends front ∧
      x.streams = (((streams.sendAll front).write response).start started).sendAll later := by
  intro response
  obtain ⟨next, hhook, hnext⟩ := h.replies
  obtain ⟨packets, y, hstaged, hstreams, hexchange⟩ :=
    Handler.runAmong_staging headers body (.respond status reason next)
      (streams.exchange peer r.cseq ahead)
  obtain ⟨front, hfront, hsame⟩ := streams.exists_sends (packets ++ y.ahead.headD [])
  have hsent : y.yield.streams = streams.sendAll front := by
    rw [← hsame, Streams.sendAll_append, SharedExchange.streams_yield, hstreams]
    rfl
  have hworks : y.yield.exchange.link.connection.behaviour.Reliable := by
    obtain ⟨-, -, -, hkeeps⟩ := Streams.sendAll_writes hr front
    rw [← hsent] at hkeeps
    exact hkeeps ▸ hr
  obtain ⟨hrespond, -⟩ := y.yield.exchange.respond_of_reliable hworks status reason
  have hmessage : (y.yield.exchange.response status reason).encode = response.encode := by
    rw [SharedExchange.exchange_yield, hexchange]
    simp only [Streams.exchange, List.nil_append, Option.or_none]
    rfl
  rw [hmessage] at hrespond
  let answered : SharedExchange :=
    { y.yield with exchange := (y.yield.exchange.respond status reason).2 }
  obtain ⟨more, z, hstarts, hstarted, hlast⟩ := Handler.runAmong_startAll started answered
  have hanswered : answered.streams = (streams.sendAll front).write response := by
    rw [← hsent]
    simp only [answered, SharedExchange.streams, hrespond]
    rfl
  have hhandled : (controller.hook r.method r p).runAmong
      (streams.exchange peer r.cseq ahead) = (q, z) := by
    rw [hhook, hstaged]
    simp only [Handler.runAmong]
    rw [show (y.yield.exchange.respond status reason).1 = .ok response.encode.length by
      rw [hrespond], hnext, Handler.runAmong_bind]
    simp only [answered] at hstarts
    rw [hstarts]
    rfl
  have houtcome : z.yield.exchange.outcome = some (.ok response.encode.length) := by
    rw [SharedExchange.exchange_yield, hlast]
    simp only [answered, hrespond]
  refine ⟨front, more ++ z.ahead.headD [],
    { z.yield with exchange := z.yield.exchange.takeOutcome.2 }, ?_, hfront, ?_⟩
  · have hbefore (x : SharedExchange) : (controller.before r p).runAmong x = (p, x) := rfl
    have hafter (outcome : Except RtspError Nat) (x : SharedExchange) :
        (controller.after outcome r q).handler.runAmong x = (q, x) := rfl
    simp only [Controller.dispatchAmong, Controller.settleAmong, hbefore, hhandled,
      Controller.ensureAnswered, Exchange.hasResponded, houtcome, Option.isSome_some, if_true,
      hafter, Exchange.takeOutcome]
  · rw [← hanswered, Streams.sendAll_append, ← hstarted]
    rfl

/-! ### SETUP -/

theorem pending_setPending (p : Player) (kind other : StreamKind)
    (stream : Option PendingStream) :
    (p.setPending kind stream).pending other =
      if other = kind then stream else p.pending other := by
  cases kind <;> cases other <;> rfl

@[simp] theorem started_setPending (p : Player) (kind : StreamKind)
    (stream : Option PendingStream) : (p.setPending kind stream).started = p.started := by
  cases kind <;> rfl

theorem oneLine_confirmation {delivery : Delivery} {confirmation : String}
    (h : p.deliveryFor r = .ok (delivery, confirmation)) : OneLine confirmation := by
  have hpair (start : String) (m n : Nat) (hstart : OneLine start) :
      OneLine (start ++ toString m ++ "-" ++ toString n) :=
    Response.oneLine_append
      (Response.oneLine_append (Response.oneLine_append hstart (Response.oneLine_toString m))
        (by decide))
      (Response.oneLine_toString n)
  unfold deliveryFor at h
  split at h
  · cases h
  · split at h
    · cases h
    · split at h
      · split at h
        · cases h
        · rename_i pair _
          cases h
          exact hpair "RTP/AVP/TCP;unicast;interleaved=" pair.media.toNat pair.control.toNat
            (by decide)
      · split at h
        · cases h
        · rename_i pair _
          split at h
          · cases h
            exact hpair "RTP/AVP/UDP;unicast;client_port=" pair.media.toNat pair.control.toNat
              (by decide)
          · cases h

theorem replies_join_of_error {fault : TransportFault} (h : p.deliveryFor r = .error fault)
    (kind : StreamKind) (session : UInt64) :
    (p.join kind session r).Replies fault.reply.1 fault.reply.2 [] none [] p := by
  rw [join, h]
  exact ⟨_, rfl, fun _ => rfl⟩

theorem replies_join_of_ok {delivery : Delivery} {confirmation : String}
    (h : p.deliveryFor r = .ok (delivery, confirmation)) (kind : StreamKind) (session : UInt64) :
    ∃ rtp q, rtp.delivery = delivery ∧
      (p.join kind session r).Replies 200 "OK"
        [("Transport", confirmation), ("Session", toString session)] none [] q ∧
      (∀ other, q.pending other =
        if other = kind then some { session, rtp } else p.pending other) ∧
      q.started = p.started := by
  let drawn :=
    Rtp.Sender.drawn delivery kind.payloadType kind.clockRate kind.payloadType_lt p.random
  refine ⟨drawn.1, { p with random := drawn.2 }.setPending kind (some { session, rtp := drawn.1 }),
    rfl, ?_, fun other => ?_, started_setPending _ _ _⟩
  · rw [join, h]
    exact ⟨_, rfl, fun _ => rfl⟩
  · rw [pending_setPending]
    rfl

theorem plainHeader_confirmed {confirmation : String} (hline : OneLine confirmation)
    (session : UInt64) :
    ∀ header ∈ [("Transport", confirmation), ("Session", toString session)],
      PlainHeader header := by
  rw [List.forall_mem_cons, List.forall_mem_singleton]
  exact ⟨plainHeader_of_name (by decide) hline,
    plainHeader_of_name (by decide) (Response.oneLine_toString session.toNat)⟩

theorem hook_of_setup (h : r.method = .setup) : controller.hook r.method r p = p.setup r := by
  rw [h]
  rfl

theorem replies_setup_of_unserved (h : p.media.has (StreamKind.ofUri r.uri) = false) :
    (p.setup r).Replies 404 "Stream Not Found" [] none [] p := by
  simp only [setup, h]
  exact ⟨_, rfl, fun _ => rfl⟩

theorem replies_setup_of_malformed (hhas : p.media.has (StreamKind.ofUri r.uri) = true)
    {e : Text.NumberError} (h : sessionOf? r = some (.error e)) :
    (p.setup r).Replies 400 "Malformed `Session'" [] none [] p := by
  simp only [setup, hhas, h, if_true]
  exact ⟨_, rfl, fun _ => rfl⟩

/-- A SETUP joins the session that it names, or a new one if it names none. -/
theorem setup_eq_join (hhas : p.media.has (StreamKind.ofUri r.uri) = true)
    (hclear : ∀ e, sessionOf? r ≠ some (.error e)) :
    ∃ random session, (∀ other, Names r other → other = session) ∧
      p.setup r = { p with random }.join (StreamKind.ofUri r.uri) session r := by
  rcases hsession : sessionOf? r with _ | ⟨e⟩ | ⟨session⟩
  · refine ⟨p.random.draw64.2, p.random.draw64.1, fun other hother => ?_, ?_⟩
    · cases hsession.symm.trans (sessionOf?_eq_ok_iff.2 hother)
    · simp only [setup, hhas, hsession, if_true]
  · exact absurd hsession (hclear e)
  · refine ⟨p.random, session, fun other hother => ?_, ?_⟩
    · exact hother.unique (sessionOf?_eq_ok_iff.1 hsession)
    · simp only [setup, hhas, hsession, if_true]

/-- What may come of a SETUP: it confirms a session, which is the one it names if it names one, and
leaves one stream waiting there; or it fails and leaves the streams as they were. -/
inductive SetupOutcome (p : Player) (r : Request) : Prop
  | joined (confirmation : String) (session : UInt64) (rtp : Rtp.Sender) (q : Player)
    (named : ∀ other, Names r other → other = session)
    (answers : Answers p r 200 "OK"
      [("Transport", confirmation), ("Session", toString session)] none [] q)
    (pending : ∀ kind, q.pending kind =
      if kind = StreamKind.ofUri r.uri then some { session, rtp } else p.pending kind)
    (started : q.started = p.started)
  | refused (status : UInt16) (reason : String) (q : Player) (fails : status ≠ 200)
    (answers : Answers p r status reason [] none [] q) (pending : q.pending = p.pending)
    (started : q.started = p.started)

theorem SetupOutcome.of_replies (h : r.method = .setup) (hstatus : status ≠ 200)
    (hline : OneLine reason) (hreplies : (p.setup r).Replies status reason [] none [] p) :
    SetupOutcome p r :=
  .refused status reason p hstatus ⟨hook_of_setup h ▸ hreplies, hline, by simp⟩ rfl rfl

theorem answers_setup (p : Player) (h : r.method = .setup) : SetupOutcome p r := by
  cases hhas : p.media.has (StreamKind.ofUri r.uri) with
  | false => exact .of_replies h (by decide) (by decide) (replies_setup_of_unserved hhas)
  | true =>
    by_cases hclear : ∃ e, sessionOf? r = some (.error e)
    · obtain ⟨e, he⟩ := hclear
      exact .of_replies h (by decide) (by decide) (replies_setup_of_malformed hhas he)
    · obtain ⟨random, session, hnamed, hsetup⟩ := setup_eq_join hhas (not_exists.1 hclear)
      rw [← hook_of_setup h] at hsetup
      cases hd : ({ p with random } : Player).deliveryFor r with
      | error fault =>
        have hreplies := replies_join_of_error hd (StreamKind.ofUri r.uri) session
        refine .refused fault.reply.1 fault.reply.2 { p with random } fault.reply_fails.1
          ⟨hsetup ▸ hreplies, fault.reply_fails.2, by simp⟩ ?_ rfl
        funext kind
        cases kind <;> rfl
      | ok found =>
        obtain ⟨rtp, q, -, hreplies, hpending, hstarted⟩ :=
          replies_join_of_ok hd (StreamKind.ofUri r.uri) session
        exact .joined found.2 session rtp q hnamed
          ⟨hsetup ▸ hreplies, by decide, plainHeader_confirmed (oneLine_confirmation hd) session⟩
          hpending hstarted

/-! ### PLAY -/

theorem takeReady_cases (session : UInt64) (kind : StreamKind) (p : Player) :
    (∃ rtp, p.pending kind = some { session, rtp } ∧
      p.takeReady session kind = ([{ kind, rtp, flag := p.flag }], p.setPending kind none)) ∨
    (∀ rtp, p.pending kind ≠ some { session, rtp }) ∧ p.takeReady session kind = ([], p) := by
  unfold takeReady
  split
  · rename_i stream hstream
    split
    · rename_i hsession
      subst hsession
      exact .inl ⟨stream.rtp, hstream, rfl⟩
    · rename_i hsession
      refine .inr ⟨fun rtp hrtp => hsession ?_, rfl⟩
      cases hstream.symm.trans hrtp
      rfl
  · rename_i hnone
    refine .inr ⟨fun rtp hrtp => ?_, rfl⟩
    cases hnone.symm.trans hrtp

/-- The streams of a session that wait are taken out, and no others. -/
structure Takes (session : UInt64) (p : Player) (ready : List StartedStream) (q : Player) :
    Prop where
  kinds : (ready.map (·.kind)).Nodup
  mem_kinds : ∀ kind, kind ∈ ready.map (·.kind) ↔ ∃ rtp, p.pending kind = some { session, rtp }
  waited : ∀ stream ∈ ready, p.pending stream.kind = some { session, rtp := stream.rtp }
  left : ∀ kind, q.pending kind = if kind ∈ ready.map (·.kind) then none else p.pending kind
  started : q.started = p.started

theorem takes_takeReady (session : UInt64) (p : Player) :
    let audio := p.takeReady session .audio
    let video := audio.2.takeReady session .video
    Takes session p (audio.1 ++ video.1) video.2 := by
  intro audio video
  have hv := takeReady_cases session .video audio.2
  have hsame : audio.2.pending .video = p.pending .video := by
    obtain ⟨rtp, -, ha⟩ | ⟨-, ha⟩ := takeReady_cases session .audio p
    · simp only [audio, ha]
      rfl
    · simp only [audio, ha]
  rw [hsame] at hv
  obtain ⟨a, hpa, ha⟩ | ⟨hpa, ha⟩ := takeReady_cases session .audio p
  all_goals
    obtain ⟨v, hpv, hv⟩ | ⟨hpv, hv⟩ := hv
    all_goals
      simp only [audio, video, ha] at hv ⊢
      rw [hv]
      constructor
      case kinds => simp
      case mem_kinds =>
        intro kind
        cases kind <;> simp [hpa, hpv]
      case waited => simp [hpa, hpv]
      case left =>
        intro kind
        cases kind <;> simp [pending_setPending]
      case started => simp

/-- The streams that a PLAY takes out are started if the answer could be written. -/
theorem play_of_ready {session : UInt64} (hsession : sessionOf? r = some (.ok session))
    {audio video : List StartedStream} {mid : Player}
    (ha : p.takeReady session .audio = (audio, mid))
    (hv : mid.takeReady session .video = (video, q)) (hready : audio ++ video ≠ []) :
    p.play r = .header "Range" "npt=now-" (.respond 200 "OK" fun result =>
      match result with
      | .ok _ => (Handler.startAll ((audio ++ video).map (·.rtp))).bind fun _ =>
        .done { q with started := q.started ++ (audio ++ video) }
      | .error _ => .done q) := by
  simp only [play, hsession, ha, hv, List.isEmpty_iff, if_neg hready]
  rfl

/-- A PLAY that names no session is answered 400, and one that names a session in which no stream
waits 454. Any other PLAY is answered 200 and starts the streams that wait in its session. -/
theorem answers_play (p : Player) (h : r.method = .play) :
    ((∀ session, ¬ Names r session) ∧ Answers p r 400 "Malformed `Session'" [] none [] p) ∨
    ∃ session, Names r session ∧ ∃ ready q, Takes session p ready q ∧
      (ready = [] ∧ Answers p r 454 "Invalid Session ID" [] none [] q ∨
        ready ≠ [] ∧ Answers p r 200 "OK" [("Range", "npt=now-")] none (ready.map (·.rtp))
          { q with started := p.started ++ ready }) := by
  have hhook : controller.hook r.method r p = p.play r := by
    rw [h]
    rfl
  have hmalformed (hnone : ∀ session, ¬ Names r session) :
      p.play r = (do
        Handler.reply 400 "Malformed `Session'"
        return p) := by
    unfold play
    split
    · rename_i session hsession
      exact absurd (sessionOf?_eq_ok_iff.1 hsession) (hnone session)
    · rfl
  by_cases hnames : ∃ session, Names r session
  · obtain ⟨session, hnames⟩ := hnames
    have hsession := sessionOf?_eq_ok_iff.2 hnames
    have htakes := takes_takeReady session p
    rcases ha : p.takeReady session .audio with ⟨audio, mid⟩
    rcases hv : mid.takeReady session .video with ⟨video, last⟩
    simp only [ha, hv] at htakes
    refine .inr ⟨session, hnames, _, _, htakes, ?_⟩
    by_cases hready : audio ++ video = []
    · refine .inl ⟨hready, ⟨?_, by decide, by simp⟩⟩
      rw [hhook]
      simp only [play, hsession, ha, hv, hready, List.isEmpty_nil, if_true]
      exact ⟨_, rfl, fun _ => rfl⟩
    · refine .inr ⟨hready, ⟨?_, by decide, by decide⟩⟩
      rw [hhook, play_of_ready hsession ha hv hready, htakes.started]
      exact ⟨_, rfl, fun _ => rfl⟩
  · rw [not_exists] at hnames
    refine .inl ⟨hnames, ⟨?_, by decide, by simp⟩⟩
    rw [hhook, hmalformed hnames]
    exact ⟨_, rfl, fun _ => rfl⟩

/-! ### Other requests -/

/-- A TEARDOWN forgets all streams that wait. -/
theorem answers_teardown (p : Player) (h : r.method = .teardown) :
    ∃ q, Answers p r 200 "OK" [] none [] q ∧ (∀ kind, q.pending kind = none) ∧
      q.started = p.started := by
  refine ⟨{ p.stopAll with audio := none, video := none }, ⟨?_, by decide, by simp⟩, ?_, rfl⟩
  · rw [h]
    exact ⟨_, rfl, fun _ => rfl⟩
  · intro kind
    cases kind <;> rfl

/-- No other request does anything to the streams. -/
theorem answers_other (p : Player) (hsetup : r.method ≠ .setup) (hplay : r.method ≠ .play)
    (hteardown : r.method ≠ .teardown) :
    ∃ status reason headers body, Answers p r status reason headers body [] p := by
  have hunknown (hhook : controller.hook r.method = unknown) :
      Answers p r 405 "Unknown method" [] none [] p := by
    refine ⟨?_, by decide, by simp⟩
    rw [hhook]
    exact ⟨_, rfl, fun _ => rfl⟩
  cases hm : r.method with
  | options =>
    refine ⟨200, "OK", [("Public", "DESCRIBE, SETUP, TEARDOWN, PLAY")], none, ?_, by decide,
      by decide⟩
    rw [hm]
    exact ⟨_, rfl, fun _ => rfl⟩
  | describe =>
    refine ⟨200, "OK", [("Content-Type", "application/sdp")], some (Text.utf8 p.description), ?_,
      by decide, by decide⟩
    rw [hm]
    exact ⟨_, rfl, fun _ => rfl⟩
  | setup => exact absurd hm hsetup
  | play => exact absurd hm hplay
  | teardown => exact absurd hm hteardown
  | _ => exact ⟨_, _, _, _, hunknown (by rw [hm]; rfl)⟩

end Player

end Demo

end RealTimeStreaming
