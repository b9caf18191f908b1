import RealTimeStreaming.Proofs.Demo.Answers
import RealTimeStreaming.Wire.SinkScript

/-! The streams that a TEARDOWN stops. All streams started since the last TEARDOWN share one flag; a
TEARDOWN raises it and takes a new one. So a stream is told to stop by the first TEARDOWN behind its
start, or when its client is gone, and by nothing else, whatever else is asked and answered. -/

namespace RealTimeStreaming.Demo.Player

variable {p q : Player} {r : Request} {x : Exchange} {stream : StartedStream}

/-! ### One request -/

/-- Between two players these streams were started, under the flag that both have, and no flag was
raised. -/
structure Starts (p q : Player) (ready : List StartedStream) : Prop where
  started : q.started = p.started ++ ready
  flag : q.flag = p.flag
  raised : q.raised = p.raised
  flags : ∀ stream ∈ ready, stream.flag = p.flag

namespace Starts

theorem of_eq (hstarted : q.started = p.started) (hflag : q.flag = p.flag)
    (hraised : q.raised = p.raised) : Starts p q [] :=
  ⟨by rw [hstarted, List.append_nil], hflag, hraised, by simp⟩

theorem refl (p : Player) : Starts p p [] :=
  of_eq rfl rfl rfl

theorem of_ready {ready : List StartedStream} (h : Starts p q [])
    (hready : ∀ stream ∈ ready, stream.flag = p.flag) :
    Starts p { q with started := q.started ++ ready } ready := by
  refine ⟨?_, h.flag, h.raised, hready⟩
  rw [h.started, List.append_nil]

theorem trans {last : Player} (h : Starts p q []) (hlast : Starts q last []) :
    Starts p last [] :=
  of_eq (by rw [hlast.started, h.started, List.append_nil, List.append_nil])
    (hlast.flag.trans h.flag) (hlast.raised.trans h.raised)

end Starts

theorem starts_join (kind : StreamKind) (session : UInt64) (r : Request) (p : Player)
    (x : Exchange) : Starts p ((p.join kind session r).run x).1 [] := by
  unfold join
  split
  · exact .refl p
  · cases kind
    · exact .of_eq rfl rfl rfl
    · exact .of_eq rfl rfl rfl

theorem starts_setup (r : Request) (p : Player) (x : Exchange) :
    Starts p ((p.setup r).run x).1 [] := by
  unfold setup
  simp only
  split
  · split
    · exact starts_join _ _ r p x
    · exact .refl p
    · exact .trans (q := { p with random := p.random.draw64.2 }) (.of_eq rfl rfl rfl)
        (starts_join _ _ r _ x)
  · exact .refl p

theorem starts_takeReady (session : UInt64) (kind : StreamKind) (p : Player) :
    Starts p (p.takeReady session kind).2 [] ∧
      ∀ stream ∈ (p.takeReady session kind).1, stream.flag = p.flag := by
  obtain ⟨rtp, -, htake⟩ | ⟨-, htake⟩ := takeReady_cases session kind p
  · rw [htake]
    refine ⟨?_, by simp⟩
    cases kind
    · exact .of_eq rfl rfl rfl
    · exact .of_eq rfl rfl rfl
  · rw [htake]
    exact ⟨.refl p, by simp⟩

/-- What a PLAY starts has the flag of the player, whether the answer could be written or not. -/
theorem starts_play (r : Request) (p : Player) (x : Exchange) :
    ∃ ready, Starts p ((p.play r).run x).1 ready := by
  rcases hsession : sessionOf? r with _ | ⟨e⟩ | ⟨session⟩
  · exact ⟨[], by simp only [play, hsession]; exact .refl p⟩
  · exact ⟨[], by simp only [play, hsession]; exact .refl p⟩
  · obtain ⟨hmid, haudio⟩ := starts_takeReady session .audio p
    obtain ⟨hlast, hvideo⟩ := starts_takeReady session .video (p.takeReady session .audio).2
    rcases ha : p.takeReady session .audio with ⟨audio, mid⟩
    simp only [ha] at hmid haudio hlast hvideo
    rcases hv : mid.takeReady session .video with ⟨video, last⟩
    simp only [hv, hmid.flag] at hlast hvideo
    have htakes : Starts p last [] := hmid.trans hlast
    have hready : ∀ stream ∈ audio ++ video, stream.flag = p.flag :=
      List.forall_mem_append.2 ⟨haudio, hvideo⟩
    by_cases hnone : audio ++ video = []
    · refine ⟨[], ?_⟩
      simp only [play, hsession, ha, hv, hnone, List.isEmpty_nil, if_true]
      exact htakes
    · rw [play_of_ready hsession ha hv hnone]
      cases hwritten : ((x.stageHeader "Range" "npt=now-").respond 200 "OK").1 with
      | error e =>
        refine ⟨[], ?_⟩
        simp only [Handler.run, hwritten]
        exact htakes
      | ok n =>
        refine ⟨audio ++ video, ?_⟩
        simp only [Handler.run, hwritten, Handler.run_bind, Handler.run_startAll]
        exact htakes.of_ready hready

/-- A request that was handled, over an exchange of its own. -/
def serve (p : Player) (r : Request) (x : Exchange) : Player :=
  (controller.dispatch r p x).2.1

theorem serve_eq (p : Player) (r : Request) (x : Exchange) :
    p.serve r x = ((controller.hook r.method r p).run x).1 :=
  rfl

/-- A TEARDOWN raises the flag and takes a new one, whether its answer could be written or not. -/
theorem serve_teardown (h : r.method = .teardown) :
    (p.serve r x).started = p.started ∧ (p.serve r x).flag = p.flag + 1 ∧
      (p.serve r x).raised = p.flag :: p.raised := by
  rw [serve_eq, h]
  exact ⟨rfl, rfl, rfl⟩

/-- Any other request leaves the flags as they are, and only a PLAY starts streams. -/
theorem starts_serve (h : r.method ≠ .teardown) :
    ∃ ready, Starts p (p.serve r x) ready ∧ (r.method ≠ .play → ready = []) := by
  rw [serve_eq]
  cases hm : r.method with
  | setup => exact ⟨[], starts_setup r p x, fun _ => rfl⟩
  | play =>
    obtain ⟨ready, hstarts⟩ := starts_play r p x
    exact ⟨ready, hstarts, fun hplay => absurd rfl hplay⟩
  | teardown => exact absurd hm h
  | _ => exact ⟨[], .refl p, fun _ => rfl⟩

theorem started_serve_grows (p : Player) (r : Request) (x : Exchange) :
    p.started <+: (p.serve r x).started := by
  by_cases hm : r.method = .teardown
  · rw [(serve_teardown hm).1]
  · obtain ⟨ready, hstarts, -⟩ := starts_serve (p := p) (x := x) hm
    rw [hstarts.started]
    exact List.prefix_append _ _

/-! ### Runs of requests -/

/-- The player behind these requests, each over an exchange of its own. -/
def serveAll (p : Player) (calls : List (Request × Exchange)) : Player :=
  calls.foldl (fun p call => p.serve call.1 call.2) p

variable {calls front later : List (Request × Exchange)} {call : Request × Exchange}

@[simp] theorem serveAll_nil : p.serveAll [] = p := rfl

@[simp] theorem serveAll_cons :
    p.serveAll (call :: calls) = (p.serve call.1 call.2).serveAll calls := rfl

theorem serveAll_append : p.serveAll (front ++ later) = (p.serveAll front).serveAll later :=
  List.foldl_append

theorem started_serveAll_prefix (p : Player) (calls : List (Request × Exchange)) :
    p.started <+: (p.serveAll calls).started := by
  induction calls generalizing p with
  | nil => exact List.prefix_rfl
  | cons call calls ih => exact (started_serve_grows p call.1 call.2).trans (ih _)

theorem getElem?_started_serveAll {i : Nat} (h : p.started[i]? = some stream)
    (calls : List (Request × Exchange)) : (p.serveAll calls).started[i]? = some stream := by
  obtain ⟨more, hmore⟩ := started_serveAll_prefix p calls
  rw [← hmore, List.getElem?_append_left (List.getElem?_eq_some_iff.1 h).1, h]

/-- The flag counts the TEARDOWNs. -/
theorem flag_serveAll (p : Player) (calls : List (Request × Exchange)) :
    (p.serveAll calls).flag = p.flag + calls.countP (·.1.method = .teardown) := by
  induction calls generalizing p with
  | nil => rfl
  | cons call calls ih =>
    rw [serveAll_cons, ih]
    by_cases hm : call.1.method = .teardown
    · rw [(serve_teardown hm).2.1, List.countP_cons_of_pos (by simpa using hm)]
      omega
    · obtain ⟨ready, hstarts, -⟩ := starts_serve (p := p) (x := call.2) hm
      rw [hstarts.flag, List.countP_cons_of_neg (by simpa using hm)]

/-- The flags that are raised are those that were taken before the one in use. -/
def RaisesOld (p : Player) : Prop :=
  ∀ n, n ∈ p.raised ↔ n < p.flag

theorem RaisesOld.stopAll (h : RaisesOld p) : RaisesOld p.stopAll := by
  intro n
  simp only [Player.stopAll, List.mem_cons, h n]
  omega

theorem RaisesOld.serve (h : RaisesOld p) (r : Request) (x : Exchange) :
    RaisesOld (p.serve r x) := by
  intro n
  by_cases hm : r.method = .teardown
  · obtain ⟨-, hflag, hraised⟩ := serve_teardown (p := p) (x := x) hm
    rw [hflag, hraised]
    exact h.stopAll n
  · obtain ⟨ready, hstarts, -⟩ := starts_serve (p := p) (x := x) hm
    rw [hstarts.flag, hstarts.raised]
    exact h n

theorem RaisesOld.serveAll (h : RaisesOld p) (calls : List (Request × Exchange)) :
    RaisesOld (p.serveAll calls) := by
  induction calls generalizing p with
  | nil => exact h
  | cons call calls ih => exact ih (h.serve call.1 call.2)

theorem RaisesOld.isStopped_iff (h : RaisesOld p) :
    p.isStopped stream = true ↔ stream.flag < p.flag := by
  rw [isStopped, List.contains_iff_mem, h]

/-- Behind some requests another one starts a stream, which is the `i`-th of all that were
started. -/
def StartsAt (p : Player) (front : List (Request × Exchange)) (call : Request × Exchange) (i : Nat)
    (stream : StartedStream) : Prop :=
  (p.serveAll front).started.length ≤ i ∧
    (p.serveAll (front ++ [call])).started[i]? = some stream

/-- Only a PLAY starts streams, and they get the flag in use. -/
theorem StartsAt.play {i : Nat} (h : StartsAt p front call i stream) :
    call.1.method = .play ∧ stream.flag = (p.serveAll front).flag := by
  obtain ⟨hplace, hstream⟩ := h
  rw [serveAll_append, serveAll_cons, serveAll_nil] at hstream
  by_cases hm : call.1.method = .teardown
  · rw [(serve_teardown hm).1, List.getElem?_eq_none hplace] at hstream
    cases hstream
  · obtain ⟨ready, hstarts, hplay⟩ := starts_serve (p := p.serveAll front) (x := call.2) hm
    rw [hstarts.started, List.getElem?_append_right hplace] at hstream
    have hmem := List.mem_of_getElem? hstream
    refine ⟨?_, hstarts.flags stream hmem⟩
    by_contra hother
    rw [hplay hother] at hmem
    cases hmem

/-- Every stream was started by one of the requests. -/
theorem exists_startsAt {i : Nat} (h : (p.serveAll calls).started[i]? = some stream)
    (hplace : p.started.length ≤ i) :
    ∃ front call later, calls = front ++ call :: later ∧ StartsAt p front call i stream := by
  induction calls generalizing p with
  | nil =>
    rw [serveAll_nil, List.getElem?_eq_none hplace] at h
    cases h
  | cons call calls ih =>
    by_cases hnow : (p.serve call.1 call.2).started.length ≤ i
    · obtain ⟨front, found, later, rfl, hfound⟩ := ih h hnow
      exact ⟨call :: front, found, later, rfl, hfound⟩
    · have hfound := getElem?_started_serveAll
        (List.getElem?_eq_getElem (Nat.lt_of_not_le hnow)) calls
      cases h.symm.trans hfound
      exact ⟨[], call, calls, rfl, hplace, List.getElem?_eq_getElem (Nat.lt_of_not_le hnow)⟩

/-- Whatever a client asks for, and whatever becomes of the answers: every stream that was started
was started by one of the PLAY requests, and it has been told to stop if and only if a TEARDOWN came
behind that PLAY or the client is gone. -/
theorem isStopped_iff_teardown_since (peer : Endpoint) (media : Media) (description : String)
    (random : RandomSource) (datagramsAvailable : Bool) (calls : List (Request × Exchange))
    (dropped : Bool) :
    let fresh : Player := { peer, media, description, random, datagramsAvailable }
    let served := fresh.serveAll calls
    let final := if dropped then served.close else served
    (∀ i stream, final.started[i]? = some stream →
      ∃ front call later, calls = front ++ call :: later ∧ fresh.StartsAt front call i stream) ∧
    ∀ front call later, calls = front ++ call :: later →
      ∀ i stream, fresh.StartsAt front call i stream →
        final.started[i]? = some stream ∧ call.1.method = .play ∧
        (final.isStopped stream = true ↔
          dropped = true ∨ ∃ since ∈ later, since.1.method = .teardown) := by
  intro fresh served final
  have hfresh : RaisesOld fresh := fun n => by simp [fresh]
  have hstarted : final.started = served.started := by cases dropped <;> rfl
  constructor
  · intro i stream hi
    rw [hstarted] at hi
    exact exists_startsAt hi (Nat.zero_le i)
  · rintro front call later rfl i stream hstart
    obtain ⟨hplay, hflag⟩ := hstart.play
    have hserved : served = (fresh.serveAll (front ++ [call])).serveAll later := by
      rw [← serveAll_append, List.append_assoc, List.singleton_append]
    -- The request that started the stream is no TEARDOWN, so those behind it are counted.
    have hcount : served.flag = stream.flag + later.countP (·.1.method = .teardown) := by
      rw [hserved, flag_serveAll, flag_serveAll, List.countP_append,
        List.countP_cons_of_neg (by simp [hplay]), hflag, flag_serveAll, List.countP_nil,
        Nat.add_zero]
    have hsince : served.isStopped stream = true ↔ ∃ since ∈ later, since.1.method = .teardown := by
      rw [(hfresh.serveAll _).isStopped_iff, hcount, Nat.lt_add_right_iff_pos, List.countP_pos_iff]
      simp only [decide_eq_true_eq]
    refine ⟨?_, hplay, ?_⟩
    · rw [hstarted, hserved]
      exact getElem?_started_serveAll hstart.2 later
    · cases dropped with
      | false =>
        rw [Bool.false_eq_true, false_or]
        exact hsince
      | true =>
        have hclosed : RaisesOld served.close := (hfresh.serveAll _).stopAll
        simp only [final, if_true, hclosed.isStopped_iff, true_or, iff_true]
        exact Nat.lt_succ_of_le (hcount ▸ Nat.le_add_right _ _)

/-- Audio is set up and started twice in one session, with a TEARDOWN in between whose answer cannot
be written. The first stream is told to stop, the second only when the client is gone. -/
theorem isStopped_iff_teardown_since_restart :
    let request (method : Method) (headers : List Header) : Request :=
      { method, uri := "rtsp://h/audio", headers := { entries := headers } }
    let peer : Endpoint := { host := .v4 127 0 0 1, port := 9 }
    let send (r : Request) (link : Link) : Request × Exchange := (r, { peer, cseq := r.cseq, link })
    let setup := send (request .setup
      [⟨"Transport", "RTP/AVP/TCP;interleaved=0-1"⟩, ⟨"Session", "7"⟩]) {}
    let play := send (request .play [⟨"Session", "7"⟩]) {}
    let teardown := send (request .teardown [])
      { connection := ({ budget := some 0 } : SinkScript).toSink }
    let calls := [setup, play, teardown, setup, play]
    let fresh : Player :=
      { peer, media := { audio := some [1, 2, 3] }, description := "",
        random := { word := fun _ => 5 } }
    ∃ first second, fresh.StartsAt [setup] play 0 first ∧
      fresh.StartsAt [setup, play, teardown, setup] play 1 second ∧
      (fresh.serveAll calls).isStopped first = true ∧
      (fresh.serveAll calls).isStopped second = false ∧
      (fresh.serveAll calls).close.isStopped second = true := by
  intro request peer send setup play teardown calls fresh
  have hplace : (fresh.serveAll [setup]).started.length ≤ 0 := by decide +kernel
  have hplace' : (fresh.serveAll [setup, play, teardown, setup]).started.length ≤ 1 := by
    decide +kernel
  have hfirst : 0 < (fresh.serveAll [setup, play]).started.length := by decide +kernel
  have hsecond : 1 < (fresh.serveAll calls).started.length := by decide +kernel
  have hstart : fresh.StartsAt [setup] play 0 _ := ⟨hplace, List.getElem?_eq_getElem hfirst⟩
  have hstart' : fresh.StartsAt [setup, play, teardown, setup] play 1 _ :=
    ⟨hplace', List.getElem?_eq_getElem hsecond⟩
  have hlaw := isStopped_iff_teardown_since peer fresh.media "" fresh.random true calls
  obtain ⟨-, -, hstop⟩ := (hlaw false).2 [setup] play [teardown, setup, play] rfl 0 _ hstart
  obtain ⟨-, -, hstop'⟩ := (hlaw false).2 [setup, play, teardown, setup] play [] rfl 1 _ hstart'
  obtain ⟨-, -, hclose⟩ := (hlaw true).2 [setup, play, teardown, setup] play [] rfl 1 _ hstart'
  refine ⟨_, _, hstart, hstart', ?_, ?_, hclose.2 (.inl rfl)⟩
  · exact hstop.2 (.inr ⟨teardown, List.mem_cons_self, rfl⟩)
  · rw [Bool.eq_false_iff]
    intro htrue
    obtain hgone | ⟨since, hmem, -⟩ := hstop'.1 htrue
    · cases hgone
    · cases hmem

end RealTimeStreaming.Demo.Player
