import RealTimeStreaming.Proofs.Demo.Sessions

/-! Whole runs of requests and media on the connection of a client of the demo server: every
request is answered by what has happened before it, a stream is started at most once for each time
it is set up, and no packet of a stream comes before the answer to the PLAY that started it. -/

namespace RealTimeStreaming

namespace Demo

variable {past : List Step} {stage : Stage}

/-! ### What holds at any time -/

/-- The step is the PLAY that started a stream, which is the `i`-th of all that were started. The
answer to it is on the connection, behind nothing but packets of streams before it. -/
structure Began (play : Step) (i : Nat) (stream : StartedStream) (taken : Bytes) : Prop where
  answered : ∃ r response front, play.Answers r response ∧ r.method = .play ∧
    response.status = 200 ∧ play.before.streams.Sends front ∧
    ((play.before.streams.sendAll front).write response).link.connection.taken <+: taken
  place : play.before.player.started.length ≤ i
  stream : play.after.player.started[i]? = some stream

/-- What holds behind any steps. -/
structure Upholds (past : List Step) (stage : Stage) : Prop where
  works : stage.streams.link.connection.behaviour.Reliable
  remembers : ∀ kind, Remembers past kind stage.player
  count : stage.streams.senders.length = stage.player.started.length
  senders : ∀ (i : Nat) (rtp : Rtp.Sender), stage.streams.senders[i]? = some rtp →
    ∃ (stream : StartedStream) (n : Nat), stage.player.started[i]? = some stream ∧
      rtp = stream.rtp.advance n
  began : ∀ (i : Nat) (stream : StartedStream), stage.player.started[i]? = some stream →
    ∃ play ∈ past, Began play i stream stage.streams.link.connection.taken
  log : ∀ (i : Nat) (taken : Bytes), (i, taken) ∈ stage.streams.log →
    ∃ play ∈ past, ∃ stream, Began play i stream taken

theorem Began.mono {play : Step} {i : Nat} {stream : StartedStream} {taken more : Bytes}
    (h : Began play i stream taken) (hmore : taken <+: more) : Began play i stream more := by
  obtain ⟨r, response, front, hanswers, hmethod, hstatus, hfront, htaken⟩ := h.answered
  exact ⟨⟨r, response, front, hanswers, hmethod, hstatus, hfront, htaken.trans hmore⟩, h.place,
    h.stream⟩

/-- Every stream that there is has begun with a PLAY. -/
theorem Upholds.exists_began (h : Upholds past stage) {i : Nat} {rtp : Rtp.Sender}
    (hi : stage.streams.senders[i]? = some rtp) :
    ∃ play ∈ past, ∃ stream n, Began play i stream stage.streams.link.connection.taken ∧
      rtp = stream.rtp.advance n := by
  obtain ⟨stream, n, hstream, rfl⟩ := h.senders i rtp hi
  obtain ⟨play, hplay, hbegan⟩ := h.began i stream hstream
  exact ⟨play, hplay, stream, n, hbegan, rfl⟩

/-- The senders behind a response are those that were there, with those that it started. -/
theorem Upholds.senders_of_inOrder (h : Upholds past stage) {event : Event} {response : Response}
    (hordered : (stage.next event).InOrder response)
    (hstarted : (stage.step event).player.started =
      stage.player.started ++ (stage.next event).started) :
    (stage.step event).streams.senders.length = (stage.step event).player.started.length ∧
      ∀ (i : Nat) (rtp : Rtp.Sender), (stage.step event).streams.senders[i]? = some rtp →
        ∃ (stream : StartedStream) (n : Nat), (stage.step event).player.started[i]? = some stream ∧
          rtp = stream.rtp.advance n := by
  obtain ⟨front, later, -, hafter⟩ := hordered
  rw [Stage.before_next, Stage.after_next] at hafter
  have hcount : (stage.streams.sendAll front).senders.length = stage.player.started.length := by
    rw [Streams.length_senders_sendAll, h.count]
  constructor
  · rw [hafter, hstarted, Streams.length_senders_sendAll]
    simp only [Streams.start, Streams.write, List.length_append, List.length_map, hcount]
  · intro i rtp hi
    rw [hafter] at hi
    obtain ⟨old, n, hold, rfl⟩ := Streams.getElem?_senders_sendAll
      (Streams.reliable_answered h.works front response _) later hi
    simp only [Streams.start, Streams.write] at hold
    rw [hstarted]
    by_cases hlt : i < stage.player.started.length
    · rw [List.getElem?_append_left (hcount ▸ hlt)] at hold
      obtain ⟨first, m, hfirst, rfl⟩ := Streams.getElem?_senders_sendAll h.works front hold
      obtain ⟨stream, k, hstream, rfl⟩ := h.senders i first hfirst
      rw [List.getElem?_append_left hlt]
      refine ⟨stream, k + m + n, hstream, ?_⟩
      exact (congrArg (Rtp.Sender.advance · n) (Rtp.Sender.advance_advance _ _ _)).trans
        (Rtp.Sender.advance_advance _ _ _)
    · have hge := Nat.le_of_not_lt hlt
      rw [List.getElem?_append_right (hcount ▸ hge), hcount, List.getElem?_map,
        Option.map_eq_some_iff] at hold
      obtain ⟨stream, hstream, rfl⟩ := hold
      rw [List.getElem?_append_right hge]
      exact ⟨stream, n, hstream, rfl⟩

/-- Behind the response to a request every stream has begun, and those that the request started
have begun with it. -/
theorem Upholds.exists_began_behind (h : Upholds past stage) {r : Request} {ahead : List Burst}
    {response : Response} {q : Player}
    (htreats : Treats past (stage.next (.request r ahead)) r response q) {front : Burst}
    (hfront : stage.streams.Sends front) {i : Nat} {stream : StartedStream}
    (hi : (stage.step (.request r ahead)).player.started[i]? = some stream) {taken : Bytes}
    (htaken : ((stage.streams.sendAll front).write response).link.connection.taken <+: taken) :
    ∃ play ∈ past ++ [stage.next (.request r ahead)], Began play i stream taken := by
  have hstarted := htreats.started
  rw [← htreats.serves.player, Stage.before_next, Stage.after_next] at hstarted
  by_cases hlt : i < stage.player.started.length
  · rw [hstarted, List.getElem?_append_left hlt] at hi
    obtain ⟨play, hplay, hbegan⟩ := h.began i stream hi
    have hmore := (Streams.taken_grows_answered h.works front response).trans htaken
    exact ⟨play, List.mem_append_left _ hplay, hbegan.mono hmore⟩
  · -- The stream is one of those that this request started, so the request is a PLAY.
    have hmem := hi
    rw [hstarted, List.getElem?_append_right (Nat.le_of_not_lt hlt)] at hmem
    have hne := List.ne_nil_of_mem (List.mem_of_getElem? hmem)
    have hmethod : r.method = .play := by
      by_contra hother
      exact hne (htreats.lawful.idle hother)
    have hstatus : response.status = 200 := by
      by_contra hfailed
      exact hne ((htreats.lawful.play hmethod).idle hfailed)
    refine ⟨_, List.mem_append_right _ List.mem_cons_self, ?_, Nat.le_of_not_lt hlt, hi⟩
    exact ⟨r, response, front, htreats.serves.answers, hmethod, hstatus, hfront, htaken⟩

theorem Upholds.request (h : Upholds past stage) (r : Request) (ahead : List Burst) :
    Upholds (past ++ [stage.next (.request r ahead)]) (stage.step (.request r ahead)) := by
  obtain ⟨response, q, htreats⟩ := treats_request r ahead h.works h.remembers
  have hordered := htreats.serves.ordered
  have hstarted := htreats.started
  rw [← htreats.serves.player, Stage.before_next, Stage.after_next] at hstarted
  obtain ⟨hcount, hsenders⟩ := h.senders_of_inOrder hordered hstarted
  obtain ⟨front, later, hfront, hafter⟩ := hordered
  rw [Stage.before_next] at hfront hafter
  have hworks := Streams.reliable_answered h.works front response
    ((stage.next (.request r ahead)).started.map (·.rtp))
  obtain ⟨messages, hwrote, -⟩ := Streams.sendAll_writes hworks later
  rw [← hafter] at hwrote
  constructor
  case works => exact (htreats.serves.ordered.wrote h.works).1
  case remembers => exact htreats.remembers
  case count => exact hcount
  case senders => exact hsenders
  case began =>
    intro i stream hi
    exact h.exists_began_behind htreats hfront hi hwrote.taken_grows
  case log =>
    intro i taken hlog
    rw [← Stage.after_next, hafter] at hlog
    obtain hlog | ⟨hlt, htaken⟩ := Streams.mem_log_sendAll hworks later hlog
    · obtain hlog | ⟨hlt, htaken⟩ := Streams.mem_log_sendAll h.works front hlog
      · obtain ⟨play, hplay, stream, hbegan⟩ := h.log i taken hlog
        exact ⟨play, List.mem_append_left _ hplay, stream, hbegan⟩
      · rw [h.count] at hlt
        obtain ⟨play, hplay, hbegan⟩ := h.began i _ (List.getElem?_eq_getElem hlt)
        exact ⟨play, List.mem_append_left _ hplay, _, hbegan.mono htaken⟩
    · have hcounted : i < (stage.step (.request r ahead)).player.started.length := by
        rw [← hcount, ← Stage.after_next, hafter, Streams.length_senders_sendAll]
        exact hlt
      obtain ⟨play, hplay, hbegan⟩ :=
        h.exists_began_behind htreats hfront (List.getElem?_eq_getElem hcounted) htaken
      exact ⟨play, hplay, _, hbegan⟩

theorem not_ends_of_media {step : Step} {kind : StreamKind} {i : Nat} {x : Rtp.Sending}
    (hevent : step.event = .media i x) (hplayer : step.after.player = step.before.player) :
    ¬ step.Ends kind := by
  have hnone : step.event.request? = none := by
    rw [hevent]
    rfl
  rintro (⟨r, response, hanswers, -⟩ | ⟨r, hrequest, -⟩ | hstarts)
  · cases hnone.symm.trans hanswers.event
  · cases hnone.symm.trans hrequest
  · apply not_starts _ hstarts
    rw [Step.started, hplayer, List.drop_length]

theorem Upholds.media (h : Upholds past stage) (i : Nat) (x : Rtp.Sending) :
    Upholds (past ++ [stage.next (.media i x)]) (stage.step (.media i x)) := by
  obtain ⟨messages, hwrote, -, hkeeps⟩ := Streams.send_writes h.works (i, x)
  constructor
  case works => exact hkeeps.symm ▸ h.works
  case remembers =>
    intro kind
    exact (h.remembers kind).of_not_ends rfl (not_ends_of_media rfl rfl)
  case count => exact (Streams.length_senders_send _ _).trans h.count
  case senders =>
    intro j rtp hj
    obtain ⟨old, n, hold, rfl⟩ := Streams.getElem?_senders_send h.works (i, x) hj
    obtain ⟨stream, m, hstream, rfl⟩ := h.senders j old hold
    exact ⟨stream, m + n, hstream, Rtp.Sender.advance_advance _ _ _⟩
  case began =>
    intro j stream hj
    obtain ⟨play, hplay, hbegan⟩ := h.began j stream hj
    exact ⟨play, List.mem_append_left _ hplay, hbegan.mono hwrote.taken_grows⟩
  case log =>
    intro j taken hlog
    obtain hlog | ⟨hlt, htaken⟩ := Streams.mem_log_sendAll h.works [(i, x)] hlog
    · obtain ⟨play, hplay, stream, hbegan⟩ := h.log j taken hlog
      exact ⟨play, List.mem_append_left _ hplay, stream, hbegan⟩
    · rw [h.count] at hlt
      obtain ⟨play, hplay, hbegan⟩ := h.began j _ (List.getElem?_eq_getElem hlt)
      exact ⟨play, List.mem_append_left _ hplay, _, hbegan.mono htaken⟩

theorem upholds_start (player : Player) (link : Link)
    (hfresh : player.audio = none ∧ player.video = none ∧ player.started = [])
    (hr : link.connection.behaviour.Reliable) : Upholds [] { player, streams := { link } } := by
  obtain ⟨haudio, hvideo, hstarted⟩ := hfresh
  have hpending (kind : StreamKind) : player.pending kind = none := by
    cases kind
    · exact haudio
    · exact hvideo
  refine ⟨hr, fun kind => ⟨?_, ?_⟩, by simp [hstarted], by simp, by simp [hstarted], by simp⟩
  · rintro session setup ⟨front, later, hpast, -⟩
    simp at hpast
  · intro session rtp hsession
    cases (hpending kind).symm.trans hsession

theorem Upholds.step (h : Upholds past stage) (event : Event) :
    Upholds (past ++ [stage.next event]) (stage.step event) := by
  cases event with
  | request r ahead => exact h.request r ahead
  | media i x => exact h.media i x

/-- Any step of a run stands behind steps that are as they have to be. -/
theorem Upholds.of_steps_eq (h : Upholds past stage) {events : List Event} {front later : List Step}
    {step : Step} (hsteps : Stage.steps events stage = front ++ step :: later) :
    Upholds (past ++ front) step.before ∧ step = step.before.next step.event := by
  induction front generalizing past stage events with
  | nil =>
    cases events with
    | nil => cases hsteps
    | cons event events =>
      cases hsteps
      rw [List.append_nil]
      exact ⟨h, rfl⟩
  | cons first front ih =>
    cases events with
    | nil => cases hsteps
    | cons event events =>
      rw [Stage.steps, List.cons_append, List.cons.injEq] at hsteps
      obtain ⟨rfl, hrest⟩ := hsteps
      rw [List.append_cons]
      exact ih (h.step event) hrest

/-! ### Runs -/

theorem mem_of_append_cons_eq {α : Type} {front between earlier since : List α} {a b : α}
    (h : front ++ a :: between = earlier ++ b :: since) (hne : b ≠ a) (hnot : a ∉ since) :
    b ∈ between := by
  obtain ⟨others, rfl, hrest⟩ | ⟨others, rfl, hrest⟩ := List.append_eq_append_iff.1 h
  · cases others with
    | nil =>
      cases hrest
      exact absurd rfl hne
    | cons first others =>
      cases hrest
      exact List.mem_append_right others List.mem_cons_self
  · cases others with
    | nil =>
      cases hrest
      exact absurd rfl hne
    | cons first others =>
      cases hrest
      exact absurd (List.mem_append_right others List.mem_cons_self) hnot

/-- Only a PLAY that names a session starts streams. -/
theorem Upholds.exists_play (h : Upholds past stage) {event : Event} {kind : StreamKind}
    (hstarts : (stage.next event).Starts kind) :
    ∃ r response session, event.request? = some r ∧ r.method = .play ∧
      Plays past (stage.next event) r response ∧ Names r session := by
  cases event with
  | media i x => exact absurd (.inr (.inr hstarts)) (not_ends_of_media rfl rfl)
  | request r ahead =>
    obtain ⟨response, q, htreats⟩ := treats_request r ahead h.works h.remembers
    have hmethod : r.method = .play := by
      by_contra hother
      exact not_starts (htreats.lawful.idle hother) hstarts
    have hplays := htreats.lawful.play hmethod
    have hstatus : response.status = 200 := by
      by_contra hfailed
      exact not_starts (hplays.idle hfailed) hstarts
    obtain ⟨session, hsession, -⟩ := hplays.ok_iff.1 hstatus
    exact ⟨r, response, session, rfl, hmethod, hplays, hsession⟩

/-- A PLAY is no SETUP. -/
theorem Upholds.not_setsUp_of_starts (h : Upholds past stage) {event : Event} {kind : StreamKind}
    (hstarts : (stage.next event).Starts kind) (session : UInt64) :
    ¬ (stage.next event).SetsUp kind session := by
  obtain ⟨r, response, -, hevent, hplay, -⟩ := h.exists_play hstarts
  rintro ⟨r', response', hanswers, hsetup, -⟩
  obtain rfl := Option.some.inj (hevent.symm.trans hanswers.event)
  cases hplay.symm.trans hsetup

/-- Between two starts of a kind of stream there is a SETUP for it. -/
theorem Upholds.exists_setsUp_between (h : Upholds [] stage) {events : List Event}
    {front between later : List Step} {first second : Step}
    (hsteps : Stage.steps events stage = front ++ first :: (between ++ second :: later))
    {kind : StreamKind} (hfirst : first.Starts kind) (hsecond : second.Starts kind) :
    ∃ setup ∈ between, ∃ session, setup.SetsUp kind session := by
  have hwhole : Stage.steps events stage = (front ++ first :: between) ++ second :: later := by
    rw [hsteps, List.append_assoc, List.cons_append]
  obtain ⟨hat, hstep⟩ := h.of_steps_eq hsteps
  obtain ⟨hbefore, hlast⟩ := h.of_steps_eq hwhole
  rw [List.nil_append] at hat hbefore
  rw [hlast] at hsecond
  obtain ⟨r, response, session, -, -, hplays, hsession⟩ := hbefore.exists_play hsecond
  obtain ⟨setup, earlier, since, hpast, hsetup, hsince⟩ :=
    (hplays.starts_iff session hsession kind).1 hsecond
  refine ⟨setup, mem_of_append_cons_eq hpast ?_ ?_, session, hsetup⟩
  · rintro rfl
    rw [hstep] at hfirst hsetup
    exact hat.not_setsUp_of_starts hfirst session hsetup
  · intro hmem
    exact hsince first hmem (.inr (.inr hfirst))

/-- A packet that changes the link belongs to a stream whose PLAY has been answered. -/
theorem Upholds.began_of_media (h : Upholds past stage) {i : Nat} {x : Rtp.Sending}
    (hchanged : (stage.step (.media i x)).streams.link ≠ stage.streams.link) :
    ∃ play ∈ past, ∃ stream n, Began play i stream stage.streams.link.connection.taken ∧
      stage.streams.senders[i]? = some (stream.rtp.advance n) := by
  cases hi : stage.streams.senders[i]? with
  | none =>
    have hsame : stage.streams.send (i, x) = stage.streams :=
      Streams.send_of_length_le (List.getElem?_eq_none_iff.1 hi)
    exact absurd (congrArg Streams.link hsame) hchanged
  | some rtp =>
    obtain ⟨play, hplay, stream, n, hbegan, rfl⟩ := h.exists_began hi
    exact ⟨play, hplay, stream, n, hbegan, rfl⟩

@[simp] theorem Stage.map_event_steps (events : List Event) (stage : Stage) :
    (Stage.steps events stage).map (·.event) = events := by
  induction events generalizing stage with
  | nil => rfl
  | cons event events ih => rw [Stage.steps, List.map_cons, ih, Stage.event_next]

/-- For any requests in any order, and media in between and while they are answered: each request
is answered once, a PLAY by whether a stream waits in its session, and starts the streams that wait
there; no packet of a stream goes out, be it as a frame or as a datagram, before the answer to the
PLAY that started it is on the connection; and a kind of stream is started again only if it was set
up again in between. -/
theorem steps_lawful (peer : Endpoint) (media : Media) (description : String)
    (random : RandomSource) (datagramsAvailable : Bool) (link : Link)
    (hr : link.connection.behaviour.Reliable) (events : List Event) :
    let steps := Stage.steps events
      { player := { peer, media, description, random, datagramsAvailable }, streams := { link } }
    (∀ front step later, steps = front ++ step :: later →
      (∀ r, step.event.request? = some r → ∃ response, Lawful front step r response) ∧
      (∀ i rtp, step.after.streams.senders[i]? = some rtp →
        ∃ play ∈ front ++ [step], ∃ stream n,
          Began play i stream step.after.streams.link.connection.taken ∧
          rtp = stream.rtp.advance n) ∧
      (∀ i taken, (i, taken) ∈ step.after.streams.log →
        ∃ play ∈ front ++ [step], ∃ stream, Began play i stream taken) ∧
      ∀ i x, step.event = .media i x → step.after.streams.link ≠ step.before.streams.link →
        ∃ play ∈ front, ∃ stream n,
          Began play i stream step.before.streams.link.connection.taken ∧
          step.before.streams.senders[i]? = some (stream.rtp.advance n)) ∧
    ∀ front first between second later,
      steps = front ++ first :: (between ++ second :: later) → ∀ kind,
      first.Starts kind → second.Starts kind →
        ∃ setup ∈ between, ∃ session, setup.SetsUp kind session := by
  intro steps
  have hstart := upholds_start { peer, media, description, random, datagramsAvailable } link
    ⟨rfl, rfl, rfl⟩ hr
  constructor
  · intro front step later hsteps
    obtain ⟨hbefore, hstep⟩ := hstart.of_steps_eq hsteps
    rw [List.nil_append] at hbefore
    obtain ⟨event, before, after⟩ := step
    obtain rfl : after = before.step event := congrArg Step.after hstep
    refine ⟨fun r hevent => ?_, fun i rtp => (hbefore.step event).exists_began,
      (hbefore.step event).log, ?_⟩
    · cases event with
      | media i x => cases hevent
      | request asked ahead =>
        cases hevent
        obtain ⟨response, q, htreats⟩ :=
          treats_request r ahead hbefore.works hbefore.remembers
        exact ⟨response, htreats.lawful⟩
    · rintro i x rfl hchanged
      exact hbefore.began_of_media hchanged
  · intro front first between second later hsteps kind hfirst hsecond
    exact hstart.exists_setsUp_between hsteps hfirst hsecond

/-- An audio stream is set up in session 7. A PLAY of session 8 starts nothing and one of session 7
starts the stream, whose packets go out from then on: behind that answer, between the requests, and
while another PLAY of session 7 is answered, which finds nothing left. -/
theorem steps_lawful_two_sessions :
    let request (method : Method) (headers : List Header) (ahead : List Burst) : Event :=
      .request { method, uri := "rtsp://h/audio", headers := { entries := headers } } ahead
    let x : Rtp.Sending := ⟨.raw 0, false, [], [1]⟩
    let turns : List Burst := [[(0, x)], [(0, x)], [(0, x)], [(0, x)]]
    let events : List Event :=
      [request .setup [⟨"Transport", "RTP/AVP/TCP;interleaved=0-1"⟩, ⟨"Session", "7"⟩] turns,
        request .play [⟨"Session", "8"⟩] turns, request .play [⟨"Session", "7;timeout=60"⟩] turns,
        .media 0 x, request .play [⟨"Session", "7"⟩] turns]
    let player : Player :=
      { peer := { host := .v4 127 0 0 1, port := 9 }
        media := { audio := some [1, 2, 3] }
        description := ""
        random := { word := fun _ => 5 } }
    let steps := Stage.steps events { player, streams := { link := {} } }
    ({} : Link).connection.behaviour.Reliable ∧
      steps.map (·.response?.map Response.status) =
        [some 200, some 454, some 200, none, some 454] ∧
      steps.map (·.started.map StartedStream.kind) = [[], [], [.audio], [], []] ∧
      steps.map (·.after.streams.senders.map (·.sequence)) = [[], [], [6], [7], [9]] ∧
      ∀ step, steps[3]? = some step → ∃ play ∈ steps.take 3, ∃ stream n,
        Began play 0 stream step.before.streams.link.connection.taken ∧
        step.before.streams.senders[0]? = some (stream.rtp.advance n) := by
  intro request x turns events player steps
  refine ⟨Behaviour.reliable_accepting, by decide +kernel, by decide +kernel,
    by decide +kernel, ?_⟩
  intro step hstep
  obtain ⟨hlawful, -⟩ := steps_lawful player.peer player.media player.description player.random
    player.datagramsAvailable {} Behaviour.reliable_accepting events
  obtain ⟨hlt, hget⟩ := List.getElem?_eq_some_iff.1 hstep
  have hsplit : steps = steps.take 3 ++ step :: steps.drop 4 := by
    rw [← hget, List.cons_getElem_drop_succ, List.take_append_drop]
  have hevent : events[3]? = some step.event := by
    rw [← Stage.map_event_steps events { player, streams := { link := {} } }, List.getElem?_map]
    exact congrArg (Option.map Step.event) hstep
  have hmore : steps[3]?.map (fun step => step.after.streams.link.connection.taken.length -
      step.before.streams.link.connection.taken.length) = some 17 := by
    decide +kernel
  apply (hlawful (steps.take 3) step (steps.drop 4) hsplit).2.2.2 0 x (Option.some.inj hevent).symm
  intro hsame
  rw [hstep, Option.map_some, hsame, Nat.sub_self] at hmore
  cases hmore

end Demo

end RealTimeStreaming
