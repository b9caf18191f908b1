import RealTimeStreaming.Proofs.Request.Growth
import RealTimeStreaming.Proofs.Session.Cuts

/-! What a connection keeps in its buffer. While it is open these are the bytes of one
message that is not yet whole: a frame, which announces its length in 16 bits, or a request
on which a new parser would wait as well. So the bound on unfinished requests is one on
the buffer, whatever the peer sends and in whatever reads. -/

namespace RealTimeStreaming

/-! ### What a run leaves -/

namespace Parser

/-- What a run leaves the parser goes on with as it is. -/
theorem held_run (p : Parser) (r : Request) (w : Bytes) :
    (p.run r w).1.held (p.run r w).2 = (p.run r w).2 := by
  fun_induction run p r w with
  | case1 p r w s hs =>
    have hh := held_eq_of_step hs
    rw [← hh, held_held]
  | case2 => rfl
  | case3 p r w s q n hs ih => exact ih

end Parser

namespace Connection

variable {γ : Type} {controller : Controller γ} {config : ServerConfig} {c d : Connection γ}

/-- A new parser of a server, with the request it fills, after a look at the bytes. -/
def look (config : ServerConfig) (seen : Bytes) : Parser × Request :=
  ({ limits := config.limits } : Parser).parse (.blank config.headerCapacity) seen

/-- The parser is where a new one would be that has seen the first bytes of the buffer, and
has to wait. -/
structure Tracks (config : ServerConfig) (c : Connection γ) : Prop where
  seen : ∃ seen, seen <+: c.buffer ∧ look config seen = (c.parser, c.parser.held c.request)
  waits : c.parser.stage.isTerminal = false

/-- At the start of a message nothing has been seen. -/
theorem tracks_of_new (hp : c.parser = { limits := config.limits })
    (hr : c.request.headers.capacity = config.headerCapacity) : c.Tracks config := by
  refine ⟨⟨[], List.nil_prefix, ?_⟩, by rw [hp]; rfl⟩
  rw [look, Parser.parse_nil rfl, hp, ← hr]
  rfl

namespace Tracks

theorem extend (h : c.Tracks config) (bytes : Bytes) : (c.extend bytes).Tracks config := by
  obtain ⟨seen, hseen, hlook⟩ := h.seen
  exact ⟨⟨seen, hseen.trans (List.prefix_append _ _), hlook⟩, h.waits⟩

theorem capacity_eq (h : c.Tracks config) :
    c.request.headers.capacity = config.headerCapacity := by
  obtain ⟨seen, -, hlook⟩ := h.seen
  have hr : (look config seen).2 = c.parser.held c.request := by rw [hlook]
  rw [← c.parser.capacity_held c.request, ← hr]
  exact Parser.capacity_run _ _ _

theorem limits_eq (h : c.Tracks config) : c.parser.limits = config.limits := by
  obtain ⟨seen, -, hlook⟩ := h.seen
  have hp : (look config seen).1 = c.parser := by rw [hlook]
  rw [← hp]
  exact Parser.limits_run _ _ _

/-- A frame is passed over by a parser that has not begun. -/
theorem parser_eq_of_offset_eq (h : c.Tracks config) (ho : c.parser.offset = 0) :
    c.parser = { limits := config.limits } := by
  obtain ⟨seen, -, hlook⟩ := h.seen
  have hfst := congrArg Prod.fst hlook
  have hsame := Parser.run_of_offset_eq (p := { limits := config.limits })
    (r := .blank config.headerCapacity) rfl (seen.drop 0)
  simp only [look, Parser.parse] at hfst
  rw [hfst] at hsame
  exact hsame ho h.waits

/-- After a look at the buffer a new parser would be in the same place. -/
theorem look_eq (h : c.Tracks config) :
    look config c.buffer = (c.read.parser, c.read.request) := by
  obtain ⟨seen, hseen, hlook⟩ := h.seen
  have hopen : ∀ e, (look config seen).1.stage ≠ .failed e := by
    intro e he
    have hw := h.waits
    rw [hlook] at he
    rw [he] at hw
    cases hw
  have hgo : (look config seen).1.parse (look config seen).2 c.buffer = look config c.buffer :=
    Parser.parse_parse_of_shorter (.inr hopen) (Nat.zero_le _) hseen
  rw [← hgo, hlook]
  simp only [read, Parser.parse, Parser.run_held]

theorem read (h : c.Tracks config) (hs : c.read.parser.stage.isTerminal = false) :
    c.read.Tracks config := by
  refine ⟨⟨c.buffer, List.prefix_rfl, ?_⟩, hs⟩
  rw [h.look_eq]
  simp only [Connection.read, Parser.parse, Parser.held_run]

end Tracks

/-- All of the buffer belongs to a message that is not yet whole. -/
def Unfinished (config : ServerConfig) (c : Connection γ) : Prop :=
  (look config c.buffer).1.stage.isTerminal = false ∨
    (Frame.starts c.buffer ∧ c.buffer.length < Frame.headerLength + 65535)

theorem length_lt_of_front_eq_partOfFrame (h : c.front = .partOfFrame) :
    Frame.starts c.buffer ∧ c.buffer.length < Frame.headerLength + 65535 := by
  unfold front at h
  split at h
  · rename_i hstart
    refine ⟨hstart.2, ?_⟩
    split at h
    · rename_i hnone
      exact Nat.lt_add_right _ (Frame.length_lt_of_readHeader?_eq_none hstart.2 hnone)
    · rename_i channel length hheader
      have hlength := Frame.length_le_of_readHeader? hheader
      split at h
      · omega
      · cases h
  · cases h

/-- A turn after which the loop goes on leaves the parser at the start of a message. -/
theorem Tracks.turn_again (h : c.Tracks config) (ht : c.turn controller = .again d) :
    d.Tracks config := by
  cases hf : c.front with
  | frame n =>
    have hstart : c.parser.offset = 0 := by
      by_contra hne
      have hr := front_eq_request_iff.2 fun hs => hne hs.1
      rw [hf] at hr
      cases hr
    rw [turn_of_frame hf] at ht
    cases ht
    exact tracks_of_new (h.parser_eq_of_offset_eq hstart) h.capacity_eq
  | partOfFrame =>
    rw [turn_of_partOfFrame hf] at ht
    cases ht
  | request =>
    cases hs : c.read.parser.stage with
    | failed e =>
      rw [turn_of_failed hf hs] at ht
      cases ht
    | done =>
      rw [turn_of_done hf hs] at ht
      split at ht
      · cases ht
      · cases ht
        have hlimits : c.read.parser.limits = config.limits :=
          (Parser.limits_run _ _ _).trans h.limits_eq
        have hcapacity : c.read.request.headers.capacity = config.headerCapacity :=
          (Parser.capacity_run _ _ _).trans h.capacity_eq
        refine tracks_of_new ?_ hcapacity
        rw [parser_answer, Parser.reset, hlimits]
    | _ =>
      rw [turn_of_waiting hf (by rw [hs]; rfl)] at ht
      cases ht

/-- A turn after which the connection waits leaves an unfinished message. -/
theorem Tracks.turn_rest (h : c.Tracks config) (ht : c.turn controller = .rest d)
    (ho : d.closed = none) : d.Tracks config ∧ d.Unfinished config := by
  cases hf : c.front with
  | frame n =>
    rw [turn_of_frame hf] at ht
    cases ht
  | partOfFrame =>
    rw [turn_of_partOfFrame hf] at ht
    cases ht
    exact ⟨h, .inr (length_lt_of_front_eq_partOfFrame hf)⟩
  | request =>
    cases hs : c.read.parser.stage with
    | failed e =>
      rw [turn_of_failed hf hs] at ht
      cases ht
      cases ho
    | done =>
      rw [turn_of_done hf hs] at ht
      split at ht
      · rename_i hclosed
        cases ht
        rw [ho] at hclosed
        cases hclosed
      · cases ht
    | _ =>
      have hwaits : c.read.parser.stage.isTerminal = false := by rw [hs]; rfl
      rw [turn_of_waiting hf hwaits] at ht
      cases ht
      refine ⟨h.read hwaits, .inl ?_⟩
      change (look config c.buffer).1.stage.isTerminal = false
      rw [h.look_eq]
      exact hwaits

theorem Tracks.process (controller : Controller γ) (h : c.Tracks config)
    (ho : (c.process controller).closed = none) :
    (c.process controller).Tracks config ∧ (c.process controller).Unfinished config := by
  fun_induction Connection.process controller c with
  | case1 c d ht ih => exact ih (h.turn_again ht) ho
  | case2 c d ht => exact h.turn_rest ht ho

theorem Tracks.receive (controller : Controller γ) (h : c.Tracks config) (hopen : c.closed = none)
    (bytes : Bytes) (ho : (c.receive controller bytes).closed = none) :
    (c.receive controller bytes).Tracks config ∧
      (c.receive controller bytes).Unfinished config := by
  rw [receive_eq_process hopen] at ho ⊢
  exact (h.extend bytes).process controller ho

/-- The reads one after the other, from an unfinished message to the next one. -/
theorem Tracks.receiveAll (controller : Controller γ) (h : c.Tracks config)
    (hu : c.Unfinished config) (reads : List Bytes)
    (ho : (c.receiveAll controller reads).closed = none) :
    (c.receiveAll controller reads).Unfinished config := by
  refine (receiveAll_keeps (P := fun d => d.Tracks config ∧ d.Unfinished config) ?_
    ⟨h, hu⟩ reads ho).2
  exact fun d bytes hd hopen hnext => hd.1.receive controller hopen bytes hnext

/-- A new parser waits on bytes, and a connection keeps bytes, only up to a bound that
follows from the limits and the room for headers, unless more than `k` header lines among
them repeat a name; each of these is worth one line more. A connection may also keep a part
of one frame. -/
theorem length_le_or_repeats_of_unfinished (config : ServerConfig) (k : Nat) :
    let bound := config.limits.requestBound config.headerCapacity + k * config.limits.wholeLine
    (∀ (x : Bytes) (offset : Nat),
      (({ limits := config.limits } : Parser).parse (.blank config.headerCapacity) x).1.result =
          .ok ⟨offset, false⟩ →
        x.length ≤ bound ∨ Repeats config.limits k x) ∧
      ∀ {γ : Type} (controller : Controller γ) (peer : Endpoint) (s : γ) (link : Link)
        (reads : List Bytes),
        let c := (opened config peer s link).receiveAll controller reads
        c.closed = none →
          c.buffer.length ≤ bound ∨ Repeats config.limits k c.buffer ∨
            (Frame.starts c.buffer ∧ c.buffer.length < Frame.headerLength + 65535) := by
  intro bound
  constructor
  · intro x offset h
    exact Parser.length_le_or_repeats (Parser.isTerminal_of_result h) k
  · intro γ controller peer s link reads c ho
    have hnew : (opened config peer s link).Tracks config := tracks_of_new rfl rfl
    have hnothing : (opened config peer s link).Unfinished config := by
      refine .inl (?_ : (look config []).1.stage.isTerminal = false)
      rw [look, Parser.parse_nil rfl]
      rfl
    rcases hnew.receiveAll controller hnothing reads ho with hwaits | hframe
    · exact (Parser.length_le_or_repeats hwaits k).imp_right .inl
    · exact .inr (.inr hframe)

/-- With room for one header and lines of seven bytes a parser and a connection, the bytes
cut inside a line, go past their bound and wait, since a header was written nine times. -/
theorem repeats_of_unfinished_options :
    let config : ServerConfig :=
      { limits := { method := 7, uri := 2, headerLine := 7, body := 0 }, headerCapacity := 1 }
    let line := Text.utf8 "CSeq: 1\r\n"
    let x := Text.utf8 "OPTIONS * RTSP/1.0\r\n" ++ (List.replicate 9 line).flatten
    let c := (opened config ⟨.v4 127 0 0 1, 554, 0⟩ [] {}).receiveAll
      (Script.controller fun _ => []) [x.take 30, x.drop 30]
    (({ limits := config.limits } : Parser).parse (.blank config.headerCapacity) x).1.result =
        .ok ⟨101, false⟩ ∧
      config.limits.requestBound config.headerCapacity < 101 ∧ x.length = 101 ∧
      c.closed = none ∧ c.buffer = x ∧ Repeats config.limits 0 x ∧
      Repeats config.limits 0 c.buffer := by
  intro config line x c
  have hresult : (({ limits := config.limits } : Parser).parse (.blank config.headerCapacity)
      x).1.result = .ok ⟨101, false⟩ := by decide +kernel
  have hbound : config.limits.requestBound config.headerCapacity < 101 := by decide
  have hlength : x.length = 101 := by decide
  have hopen : c.closed = none := by decide +kernel
  have hbuffer : c.buffer = x := by decide +kernel
  have h := length_le_or_repeats_of_unfinished config 0
  have hparser := (h.1 x 101 hresult).resolve_left (by rw [hlength]; omega)
  have hkept : Repeats config.limits 0 c.buffer := by
    rcases h.2 (Script.controller fun _ => []) ⟨.v4 127 0 0 1, 554, 0⟩ [] {}
      [x.take 30, x.drop 30] hopen with hle | hrepeats | hframe
    · rw [show (c.buffer : Bytes) = x from hbuffer, hlength] at hle
      omega
    · exact hrepeats
    · exact absurd hframe.1 (by rw [show (c.buffer : Bytes) = x from hbuffer]; decide)
  exact ⟨hresult, hbound, hlength, hopen, hbuffer, hparser, hkept⟩

end Connection

end RealTimeStreaming
