import RealTimeStreaming.Proofs.Request.Acceptance

/-! Wider limits. Under wider limits and with more room for headers a parser takes the steps
that it takes under narrow ones, up to a step at which a narrow limit decides. At that step the
narrow parser fails for size, or it refuses the announced length of the body. So limits decide
only what is too large: an outcome that is not about size stays the same under all wider ones. -/

namespace RealTimeStreaming

open Octet

/-- Every limit is at most that of `wide`. -/
structure Limits.Within (narrow wide : Limits) : Prop where
  method : narrow.method.toNat ≤ wide.method.toNat
  uri : narrow.uri.toNat ≤ wide.uri.toNat
  headerLine : narrow.headerLine.toNat ≤ wide.headerLine.toNat
  body : narrow.body.toNat ≤ wide.body.toNat

/-- The map with another capacity, which need not hold its entries. -/
def HeaderMap.withRoom (room : Nat) (m : HeaderMap) : HeaderMap :=
  { m with capacity := room }

def HeaderLine.withRoom (room : Nat) : HeaderLine → HeaderLine
  | .stored m => .stored (m.withRoom room)
  | .blank => .blank

def Request.withRoom (room : Nat) (r : Request) : Request :=
  { r with headers := r.headers.withRoom room }

theorem Request.withRoom_eq_self {r : Request} {room : Nat} (h : r.headers.capacity = room) :
    r.withRoom room = r := by
  rw [← h]
  rfl

/-- The parser with other limits, as far on as it was. -/
def Parser.under (limits : Limits) (p : Parser) : Parser :=
  { p with limits }

namespace Reading

variable {α β : Type}

def map (f : α → β) : Reading α → Reading β
  | .needMore => .needMore
  | .failed e => .failed e
  | .complete a n => .complete (f a) n

/-- The reading has failed for the size of what was read. -/
def Exceeds (reading : Reading α) : Prop :=
  ∃ e, reading = .failed e ∧ e.isCapacity = true

theorem Exceeds.check {reading : Reading α} (h : reading.Exceeds) (f : α → Except ParseError β) :
    (reading.check f).Exceeds := by
  obtain ⟨e, rfl, he⟩ := h
  exact ⟨e, rfl, he⟩

end Reading

/-! ### Readers -/

theorem scanToken_of_le {kind : TokenKind} {narrow wide : UInt64}
    (h : narrow.toNat ≤ wide.toNat) (lead : UInt8 → Bool) (w : Bytes) :
    (scanToken kind narrow lead w).Exceeds ∨
      scanToken kind wide lead w = scanToken kind narrow lead w := by
  simp only [scanToken]
  split
  · by_cases hlt : narrow.toNat < w.length
    · left
      exact ⟨_, if_pos hlt, rfl⟩
    · right
      rw [if_neg hlt, if_neg (by omega)]
  · by_cases hlt : narrow.toNat < (w.takeWhile lead).length +
        ((w.dropWhile lead).takeWhile (!isSeparator ·)).length
    · left
      exact ⟨_, if_pos hlt, rfl⟩
    · right
      rw [if_neg hlt, if_neg (by omega)]

/-- Where the bound on an unfinished line wraps, the narrow limit may let wait for what the wide
one refuses. -/
theorem scanLine_of_le {kind : TokenKind} {narrow wide : UInt64}
    (h : narrow.toNat ≤ wide.toNat) (w : Bytes) :
    (scanLine kind narrow w).Exceeds ∨ scanLine kind wide w = scanLine kind narrow w ∨
      ¬ wide.toNat + 1 < UInt64.size ∧ scanLine kind narrow w = .needMore ∧
        (scanLine kind wide w).Exceeds := by
  simp only [scanLine]
  split
  · by_cases hlt : (narrow + 1).toNat < w.length
    · left
      exact ⟨_, if_pos hlt, rfl⟩
    · right
      by_cases hwide : (wide + 1).toNat < w.length
      · right
        refine ⟨fun hw => ?_, if_neg hlt, _, if_pos hwide, rfl⟩
        rw [toNat_add_one hw] at hwide
        rw [toNat_add_one (by omega)] at hlt
        omega
      · left
        rw [if_neg hlt, if_neg hwide]
  · by_cases hlt : narrow.toNat < (withoutReturn (w.takeWhile (· != lineFeed))).length
    · left
      exact ⟨_, if_pos hlt, rfl⟩
    · right
      left
      rw [if_neg hlt, if_neg (by omega)]

namespace HeaderMap

variable {m : HeaderMap} {room : Nat}

theorem insert_withRoom (h : m.capacity ≤ room) (name value : String) :
    m.insert name value = .error .headersFull ∨
      (m.withRoom room).insert name value =
        (m.insert name value).map fun (m, old) => (m.withRoom room, old) := by
  have hget : (m.withRoom room).get? name = m.get? name := rfl
  simp only [insert, hget]
  cases m.get? name with
  | some old => exact .inr rfl
  | none =>
    by_cases hfull : m.isFull
    · left
      exact if_pos hfull
    · right
      have hfree : ¬ (m.withRoom room).isFull := by
        intro hwide
        rw [isFull, decide_eq_true_eq] at hfull hwide
        exact hfull (Nat.le_trans h hwide)
      simp only [if_neg hfull, if_neg hfree]
      rfl

theorem storeLine_withRoom (h : m.capacity ≤ room) (line : Bytes) :
    m.storeLine line = .error .headersFull ∨
      (m.withRoom room).storeLine line = (m.storeLine line).map (HeaderLine.withRoom room) := by
  unfold storeLine
  split
  · exact .inr rfl
  · cases Header.ofLine line with
    | error e => exact .inr rfl
    | ok header =>
      simp only [bind, Except.bind]
      rcases insert_withRoom h header.name header.value with hfull | hsame
      · left
        rw [hfull]
      · right
        rw [hsame]
        cases m.insert header.name header.value <;> rfl

theorem readLine_withRoom {narrow wide : Limits}
    (hle : narrow.headerLine.toNat ≤ wide.headerLine.toNat) (h : m.capacity ≤ room) (w : Bytes) :
    (m.readLine narrow w).Exceeds ∨
      (m.withRoom room).readLine wide w = (m.readLine narrow w).map (HeaderLine.withRoom room) ∨
      ¬ wide.NoWrap ∧ m.readLine narrow w = .needMore ∧
        ((m.withRoom room).readLine wide w).Exceeds := by
  unfold readLine
  rcases scanLine_of_le hle w with hexceeds | hsame | ⟨hwrap, hwait, hexceeds⟩
  · exact .inl (hexceeds.check _)
  · rw [hsame]
    cases scanLine .text narrow.headerLine w with
    | needMore => exact .inr (.inl rfl)
    | failed e => exact .inr (.inl rfl)
    | complete line n =>
      simp only [Reading.check]
      rcases storeLine_withRoom h line with hfull | hsame
      · left
        rw [hfull]
        exact ⟨_, rfl, rfl⟩
      · right
        left
        rw [hsame]
        cases m.storeLine line <;> rfl
  · refine .inr (.inr ⟨hwrap, ?_, hexceeds.check _⟩)
    rw [hwait]
    rfl

end HeaderMap

theorem Request.announcedLength_of_body_le {limits : Limits} {body : UInt64}
    (h : limits.body.toNat ≤ body.toNat) (r : Request) :
    r.announcedLength { limits with body } = r.announcedLength limits ∨
      ∃ text n, Text.Decimal text.toList n ∧ limits.body.toNat < n ∧
        r.announcedLength limits = .error (.contentLength text) ∧
        r.announcedLength { limits with body } = .ok n := by
  unfold announcedLength
  cases r.header? "Content-Length" with
  | none => exact .inl rfl
  | some text =>
    simp only [contentLength]
    cases hn : Text.readNat (UInt64.size - 1) text.toList with
    | error e => exact .inl rfl
    | ok n =>
      by_cases hle : n ≤ limits.body.toNat
      · left
        simp only [if_pos hle, if_pos (Nat.le_trans hle h)]
      · by_cases hbody : n ≤ body.toNat
        · right
          exact ⟨text, n, (Text.readNat_eq_ok_iff.1 hn).1, Nat.lt_of_not_le hle, if_neg hle,
            if_pos hbody⟩
        · left
          simp only [if_neg hle, if_neg hbody]

/-! ### Steps -/

namespace Parser

variable {p q : Parser} {r s : Request} {w v : Bytes} {limits wide : Limits} {room : Nat}

/-- What a step gives, told under other limits and with another capacity. -/
def restate (limits : Limits) (room : Nat) (outcome : Request × Reading Parser) :
    Request × Reading Parser :=
  (outcome.1.withRoom room, outcome.2.map (·.under limits))

theorem exceeds_store {α : Type} {reading : Reading α} (h : reading.Exceeds)
    (put : α → Request) : (store reading r put q).2.Exceeds := by
  obtain ⟨e, rfl, he⟩ := h
  exact ⟨e, rfl, he⟩

theorem restate_endHeaders
    (h : ∀ cseq, r.sequence = .ok cseq →
      r.announcedLength limits = r.announcedLength p.limits) (n : Nat) :
    (p.under limits).endHeaders (r.withRoom room) n =
      restate limits room (p.endHeaders r n) := by
  have hsequence : (r.withRoom room).sequence = r.sequence := rfl
  have hnarrow (cseq : UInt32) :
      Request.announcedLength p.limits { r with cseq } = r.announcedLength p.limits := rfl
  have hwide (cseq : UInt32) :
      Request.announcedLength limits { r.withRoom room with cseq } =
        r.announcedLength limits := rfl
  simp only [endHeaders, hsequence, Parser.under, hnarrow, hwide]
  cases hs : r.sequence with
  | error e => rfl
  | ok cseq =>
    rw [h cseq hs]
    cases r.announcedLength p.limits <;> rfl

theorem endHeaders_of_body_le {body : UInt64} (h : p.limits.body.toNat ≤ body.toNat) (k : Nat) :
    (p.under { p.limits with body }).endHeaders r k =
        restate { p.limits with body } r.headers.capacity (p.endHeaders r k) ∨
      ∃ text n, Text.Decimal text.toList n ∧ p.limits.body.toNat < n ∧
        (p.endHeaders r k).2 = .failed (.contentLength text) ∧
        ∃ s q k', (p.under { p.limits with body }).endHeaders r k = (s, .complete q k') ∧
          q.stage = .body ∧ q.bodyLength = n := by
  cases hs : r.sequence with
  | error e =>
    left
    exact restate_endHeaders (r := r) (fun cseq hok => by rw [hs] at hok; cases hok) k
  | ok cseq =>
    rcases r.announcedLength_of_body_le h with hsame | ⟨text, n, hn, hlt, hnarrow, hwide⟩
    · left
      exact restate_endHeaders (fun _ _ => hsame) k
    · right
      refine ⟨text, n, hn, hlt, ?_, { r with cseq },
        { p.under { p.limits with body } with stage := .body, bodyLength := n }, k,
        endHeaders_eq_complete_iff.2 ⟨cseq, n, hs, hwide, rfl, rfl, rfl⟩, rfl, rfl⟩
      have hnarrow' : Request.announcedLength p.limits { r with cseq } =
          .error (.contentLength text) := hnarrow
      simp only [endHeaders, hs, hnarrow']

/-- Where only the body may be longer, steps differ at the end of headers that announce one
between the two limits. -/
theorem step_of_body_le {body : UInt64} (h : p.limits.body.toNat ≤ body.toNat) :
    (p.under { p.limits with body }).step r w =
        restate { p.limits with body } r.headers.capacity (p.step r w) ∨
      ∃ text n, Text.Decimal text.toList n ∧ p.limits.body.toNat < n ∧
        (p.step r w).2 = .failed (.contentLength text) ∧
        ∃ s q k, (p.under { p.limits with body }).step r w = (s, .complete q k) ∧
          q.stage = .body ∧ q.bodyLength = n := by
  cases hp : p.stage with
  | method =>
    left
    have hread : Method.read { p.limits with body } w = Method.read p.limits w := rfl
    simp only [step, Parser.under, hp, hread]
    cases Method.read p.limits w <;> rfl
  | target =>
    left
    have hread : readTarget { p.limits with body } w = readTarget p.limits w := rfl
    simp only [step, Parser.under, hp, hread]
    cases readTarget p.limits w <;> rfl
  | version =>
    left
    simp only [step, Parser.under, hp]
    cases Version.read w <;> rfl
  | headers =>
    have hread :
        r.headers.readLine { p.limits with body } w = r.headers.readLine p.limits w := rfl
    simp only [step, Parser.under, hp, hread]
    cases hline : r.headers.readLine p.limits w with
    | needMore => exact .inl rfl
    | failed e => exact .inl rfl
    | complete line k =>
      cases line with
      | stored m =>
        left
        have hroom : m.withRoom r.headers.capacity = m := by
          rw [← HeaderMap.capacity_of_readLine hline]
          rfl
        simp only [restate, Reading.map, Request.withRoom, hroom, Parser.under, hp]
      | blank =>
        exact endHeaders_of_body_le h k
  | body =>
    left
    simp only [step, Parser.under, hp]
    split <;> rfl
  | done =>
    left
    simp only [step, Parser.under, hp]
    rfl
  | failed e =>
    left
    simp only [step, Parser.under, hp]
    rfl

/-- Where the body may not be longer, a step differs only if it fails for size, or because a
bound has wrapped. -/
theorem step_of_within (hle : p.limits.Within wide) (hbody : wide.body = p.limits.body)
    (hroom : r.headers.capacity ≤ room) :
    (p.under wide).step (r.withRoom room) w = restate wide room (p.step r w) ∨
      (p.step r w).2.Exceeds ∨
      ¬ wide.NoWrap ∧ ((p.under wide).step (r.withRoom room) w).2.Exceeds := by
  cases hp : p.stage with
  | method =>
    simp only [step, Parser.under, hp, Method.read]
    rcases scanToken_of_le hle.method isSeparator w with hexceeds | hsame
    · exact .inr (.inl (exceeds_store (hexceeds.check _) _))
    · left
      rw [hsame]
      cases Reading.check Method.ofToken _ <;> rfl
  | target =>
    simp only [step, Parser.under, hp, readTarget]
    rcases scanToken_of_le hle.uri isSpace w with hexceeds | hsame
    · exact .inr (.inl (exceeds_store (hexceeds.check _) _))
    · left
      rw [hsame]
      cases Reading.check targetOfToken _ <;> rfl
  | version =>
    left
    simp only [step, Parser.under, hp]
    cases Version.read w <;> rfl
  | headers =>
    simp only [step, Parser.under, hp]
    rcases HeaderMap.readLine_withRoom hle.headerLine hroom w with
      ⟨e, hline, he⟩ | hsame | ⟨hwrap, -, e, hline, he⟩
    · right
      left
      rw [hline]
      exact ⟨e, rfl, he⟩
    · left
      rw [Request.withRoom, hsame]
      cases r.headers.readLine p.limits w with
      | needMore => rfl
      | failed e => rfl
      | complete line k =>
        cases line with
        | stored m => simp only [restate, Reading.map, HeaderLine.withRoom, Request.withRoom,
            Parser.under, hp]
        | blank =>
          have hlength : r.announcedLength wide = r.announcedLength p.limits := by
            simp only [Request.announcedLength, contentLength, hbody]
          exact restate_endHeaders (fun _ _ => hlength) k
    · right
      right
      rw [Request.withRoom, hline]
      exact ⟨hwrap, e, rfl, he⟩
  | body =>
    left
    simp only [step, Parser.under, hp]
    split <;> rfl
  | done =>
    left
    simp only [step, Parser.under, hp]
    rfl
  | failed e =>
    left
    simp only [step, Parser.under, hp]
    rfl

/-! ### Runs -/

/-- Two runs under different limits go the same way up to a step at which they part. -/
theorem run_under (limits : Limits) (room : Nat) (p : Parser) (r : Request) (w : Bytes) :
    (p.under limits).run (r.withRoom room) w =
        ((p.run r w).1.under limits, (p.run r w).2.withRoom room) ∨
      ∃ (q : Parser) (s : Request) (v : Bytes), q.limits = p.limits ∧
        s.headers.capacity = r.headers.capacity ∧
        p.run r w = q.run s v ∧
        (p.under limits).run (r.withRoom room) w = (q.under limits).run (s.withRoom room) v ∧
        (q.under limits).step (s.withRoom room) v ≠ restate limits room (q.step s v) := by
  fun_induction run p r w with
  | case1 p r w s hs =>
    by_cases h : (p.under limits).step (r.withRoom room) w = restate limits room (p.step r w)
    · rw [hs] at h
      exact .inl (run_of_needMore h)
    · exact .inr ⟨p, r, w, rfl, rfl, (run_of_needMore hs).symm, rfl, h⟩
  | case2 p r w s e hs =>
    by_cases h : (p.under limits).step (r.withRoom room) w = restate limits room (p.step r w)
    · rw [hs] at h
      exact .inl (run_of_failed h)
    · exact .inr ⟨p, r, w, rfl, rfl, (run_of_failed hs).symm, rfl, h⟩
  | case3 p r w s q n hs ih =>
    by_cases h : (p.under limits).step (r.withRoom room) w = restate limits room (p.step r w)
    · rw [hs] at h
      rw [run_of_complete h]
      rcases ih with hsame | ⟨q', s', v, hq, hcapacity, hrun, hwide, hdiffer⟩
      · exact .inl hsame
      · have hs' : s.headers.capacity = r.headers.capacity := by
          rw [← capacity_step p r w, hs]
        have hlimits := limits_of_step hs
        exact .inr ⟨q', s', v, hq.trans hlimits, hcapacity.trans hs', hrun, hwide, hdiffer⟩
    · exact .inr ⟨p, r, w, rfl, rfl, (run_of_complete hs).symm, rfl, h⟩

theorem run_of_body (hp : p.stage = .body) :
    (p.run r w).1.stage = .body ∨
      (p.run r w).1.stage = .done ∧ (p.run r w).2.body.length = p.bodyLength := by
  by_cases hlt : w.length < p.bodyLength
  · left
    have hs : p.step r w = (r, .needMore) := by simp only [step, hp, if_pos hlt]
    rw [run_of_needMore hs]
    exact hp
  · right
    have hs : p.step r w = ({ r with body := w.take p.bodyLength },
        .complete { p with stage := .done } p.bodyLength) := by
      simp only [step, hp, if_neg hlt]
    rw [run_of_complete hs, run_of_terminal rfl]
    exact ⟨rfl, List.length_take_of_le (Nat.le_of_not_lt hlt)⟩

section Parses

variable {narrow : Limits} {capacity : Nat}

theorem parse_under (narrow limits : Limits) (capacity room : Nat) (x : Bytes) :
    let strict := ({ limits := narrow } : Parser).parse (.blank capacity) x
    let ample := ({ limits } : Parser).parse (.blank room) x
    ample = (strict.1.under limits, strict.2.withRoom room) ∨
      ∃ (q : Parser) (s : Request) (v : Bytes), q.limits = narrow ∧
        s.headers.capacity = capacity ∧ strict = q.run s v ∧
        ample = (q.under limits).run (s.withRoom room) v ∧
        (q.under limits).step (s.withRoom room) v ≠ restate limits room (q.step s v) :=
  run_under limits room { limits := narrow } (.blank capacity) (x.drop 0)

/-- A longer body allowed changes nothing unless the announced length lies between the limits. -/
theorem parse_of_body_le {body : UInt64} (h : narrow.body.toNat ≤ body.toNat) (capacity : Nat)
    (x : Bytes) :
    let strict := ({ limits := narrow } : Parser).parse (.blank capacity) x
    let ample := ({ limits := { narrow with body } } : Parser).parse (.blank capacity) x
    ample = (strict.1.under { narrow with body }, strict.2) ∨
      ∃ text n, Text.Decimal text.toList n ∧ narrow.body.toNat < n ∧
        strict.1.stage = .failed (.contentLength text) ∧
        (ample.1.stage = .body ∨ ample.1.stage = .done ∧ ample.2.body.length = n) := by
  intro strict ample
  obtain hsame | ⟨q, s, v, rfl, rfl, hstrict, hample, hdiffer⟩ :=
    parse_under narrow { narrow with body } capacity capacity x
  · left
    have hroom : strict.2.withRoom capacity = strict.2 :=
      Request.withRoom_eq_self (capacity_run _ _ _)
    rw [← hroom]
    exact hsame
  · right
    obtain ⟨text, n, hn, hlt, hfails, t, q', k, hgoes, hbody, rfl⟩ :=
      (step_of_body_le h).resolve_left hdiffer
    refine ⟨text, _, hn, hlt, ?_, ?_⟩
    · have hend : strict = _ := hstrict.trans (run_of_failed (Prod.ext rfl hfails))
      rw [hend]
    · have hend : ample = _ := hample.trans (run_of_complete hgoes)
      rw [hend]
      exact run_of_body hbody

/-- Wider limits for all but the body change nothing unless the parser fails for size. Where a
bound wraps, the parser may fail under the wider limits instead. -/
theorem parse_of_within {wide : Limits} {room : Nat} (hle : narrow.Within wide)
    (hbody : wide.body = narrow.body) (hroom : capacity ≤ room) (x : Bytes) :
    let strict := ({ limits := narrow } : Parser).parse (.blank capacity) x
    let ample := ({ limits := wide } : Parser).parse (.blank room) x
    ample = (strict.1.under wide, strict.2.withRoom room) ∨
      (∃ e, strict.1.stage = .failed e ∧ e.isCapacity = true) ∨
      ¬ wide.NoWrap ∧ ∃ e, ample.1.stage = .failed e := by
  intro strict ample
  obtain hsame | ⟨q, s, v, rfl, rfl, hstrict, hample, hdiffer⟩ :=
    parse_under narrow wide capacity room x
  · exact .inl hsame
  · right
    obtain ⟨e, hfails, he⟩ | ⟨hwrap, e, hfails, -⟩ :=
      (step_of_within hle hbody hroom).resolve_left hdiffer
    · left
      have hend : strict = _ := hstrict.trans (run_of_failed (Prod.ext rfl hfails))
      rw [hend]
      exact ⟨e, rfl, he⟩
    · right
      have hend : ample = _ := hample.trans (run_of_failed (Prod.ext rfl hfails))
      rw [hend]
      exact ⟨hwrap, e, rfl⟩

/-- What is not about size is the same under all wider limits and with more room for headers:
the answer, how far the parser has come, and the request but for its room. -/
theorem parse_eq_under_wider {wide : Limits} {room : Nat} (hle : narrow.Within wide)
    (hwrap : wide.NoWrap) (hroom : capacity ≤ room) (x : Bytes)
    (h : ∀ e, (({ limits := narrow } : Parser).parse (.blank capacity) x).1.result = .error e →
      e.isCapacity = false ∧ ∀ text, e ≠ .contentLength text) :
    let strict := ({ limits := narrow } : Parser).parse (.blank capacity) x
    let ample := ({ limits := wide } : Parser).parse (.blank room) x
    ample.1.result = strict.1.result ∧ ample.1.stage = strict.1.stage ∧
      ample.1.offset = strict.1.offset ∧ ample.1.bodyLength = strict.1.bodyLength ∧
      ample.2 = { strict.2 with headers := { strict.2.headers with capacity := room } } := by
  intro strict ample
  have hnot {e : ParseError} (hfails : strict.1.stage = .failed e) :=
    h e (result_eq_error_iff.2 hfails)
  -- the limit of the body is raised first, then the others
  let between : Limits := { narrow with body := wide.body }
  have hwithin : between.Within wide := ⟨hle.method, hle.uri, hle.headerLine, Nat.le_refl _⟩
  obtain hbetween | ⟨text, -, -, -, hfails, -⟩ := parse_of_body_le hle.body capacity x
  · have hsteps := parse_of_within hwithin rfl hroom x
    rw [hbetween] at hsteps
    obtain hsame | ⟨e, hfails, he⟩ | ⟨hwraps, -⟩ := hsteps
    · have hsame : ample = (strict.1.under wide, strict.2.withRoom room) := hsame
      rw [hsame]
      exact ⟨rfl, rfl, rfl, rfl, rfl⟩
    · have hfails : strict.1.stage = .failed e := hfails
      rw [(hnot hfails).1] at he
      cases he
    · exact absurd hwrap hwraps
  · exact absurd rfl ((hnot hfails).2 text)

/-- A request that just fits, read with limits to spare. -/
theorem parse_play_eq_under_wider :
    let narrow : Limits := { method := 4, uri := 2, headerLine := 7, body := 0 }
    let x := Text.utf8 "PLAY * RTSP/1.0\r\nCSeq: 1\r\n\r\n"
    narrow.Within {} ∧ ({} : Limits).NoWrap ∧
      (({ limits := narrow } : Parser).parse (.blank 1) x).1.result = .ok ⟨x.length, true⟩ ∧
      (({} : Parser).parse (.blank 32) x).1.result = .ok ⟨x.length, true⟩ := by
  intro narrow x
  have hle : narrow.Within {} := ⟨by decide, by decide, by decide, by decide⟩
  have hstrict : (({ limits := narrow } : Parser).parse (.blank 1) x).1.result =
      .ok ⟨x.length, true⟩ := by decide +kernel
  have hroom : 1 ≤ 32 := by decide
  have hample := parse_eq_under_wider hle (by decide) hroom x
    (fun e he => by rw [hstrict] at he; cases he)
  exact ⟨hle, by decide, hstrict, hample.1.trans hstrict⟩

end Parses

end Parser

end RealTimeStreaming
