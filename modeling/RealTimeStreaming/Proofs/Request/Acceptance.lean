import RealTimeStreaming.Proofs.Request.Grammar
import RealTimeStreaming.Proofs.Request.Resumption

/-! The parser against the grammar of requests. From the last element back to the first:
the bytes on which a parser at some element completes, and with which request. The
separator that ends a token is left to the next element, so what may follow a token is
found in the statement about that element. -/

namespace RealTimeStreaming.Parser

open Octet

variable {p q : Parser} {r s : Request} {w : Bytes} {n : Nat} {capacity : Nat}
  {prior : List Header}

/-- The run ends with the request complete, `n` bytes on. -/
def Completes (p : Parser) (r : Request) (w : Bytes) (n : Nat) (s : Request) : Prop :=
  (p.run r w).2 = s ∧ (p.run r w).1.stage = .done ∧ (p.run r w).1.offset = p.offset + n

/-! ### Single elements -/

theorem completes_of_done (hp : p.stage = .done) : p.Completes r w n s ↔ n = 0 ∧ s = r := by
  have hr : p.run r w = (p, r) := run_of_terminal (by rw [hp]; rfl) r w
  simp only [Completes, hr, hp, true_and]
  constructor
  · rintro ⟨rfl, hn⟩
    exact ⟨by omega, rfl⟩
  · rintro ⟨rfl, rfl⟩
    exact ⟨rfl, rfl⟩

/-- A parser that is not done completes by an element and what follows it. -/
theorem completes_iff_step (hp : p.stage ≠ .done) :
    p.Completes r w n s ↔
      ∃ t q k m, p.step r w = (t, .complete q k) ∧ n = k + m ∧
        Completes { q with offset := p.offset + k } t (w.drop k) m s := by
  rcases hs : p.step r w with ⟨t, reading⟩
  cases reading with
  | needMore => simp [Completes, run_of_needMore hs, hp]
  | failed e => simp [Completes, run_of_failed hs]
  | complete q k =>
    have ho := offset_le_run { q with offset := p.offset + k } t (w.drop k)
    simp only at ho
    simp only [Completes, run_of_complete hs, Prod.mk.injEq, Reading.complete.injEq]
    constructor
    · rintro ⟨hr, hd, hn⟩
      exact ⟨t, q, k, n - k, ⟨rfl, rfl, rfl⟩, by omega, hr, hd, by omega⟩
    · rintro ⟨_, _, _, m, ⟨rfl, rfl, rfl⟩, rfl, hr, hd, hn⟩
      exact ⟨hr, hd, by omega⟩

/-- The case of an element that is put into the request as it was read. -/
theorem completes_iff_read {α : Type} {reading : Reading α} {t : Request} {put : α → Request}
    {next : Parser} (hp : p.stage ≠ .done) (hs : p.step r w = store reading t put next) :
    p.Completes r w n s ↔
      ∃ a k m, reading = .complete a k ∧ n = k + m ∧
        Completes { next with offset := p.offset + k } (put a) (w.drop k) m s := by
  rw [completes_iff_step hp, hs]
  cases reading with
  | needMore => simp [store]
  | failed e => simp [store]
  | complete a k =>
    simp only [store, Prod.mk.injEq, Reading.complete.injEq]
    constructor
    · rintro ⟨_, _, _, m, ⟨rfl, rfl, rfl⟩, hn, hc⟩
      exact ⟨a, k, m, ⟨rfl, rfl⟩, hn, hc⟩
    · rintro ⟨_, _, m, ⟨rfl, rfl⟩, hn, hc⟩
      exact ⟨put a, next, k, m, ⟨rfl, rfl, rfl⟩, hn, hc⟩

theorem completes_body_iff (hp : p.stage = .body) :
    p.Completes r w n s ↔
      ∃ body, body <+: w ∧ body.length = p.bodyLength ∧ n = p.bodyLength ∧
        s = { r with body := body } := by
  rw [completes_iff_step (by simp [hp])]
  simp only [step, hp]
  split
  · rename_i hlt
    simp only [Prod.mk.injEq, reduceCtorEq, and_false, false_and, exists_false, false_iff]
    rintro ⟨body, hb, hl, -⟩
    have := hb.length_le
    omega
  · rename_i hle
    simp only [Prod.mk.injEq, Reading.complete.injEq]
    constructor
    · rintro ⟨_, _, _, m, ⟨rfl, rfl, rfl⟩, rfl, hc⟩
      obtain ⟨rfl, rfl⟩ := (completes_of_done rfl).1 hc
      exact ⟨w.take p.bodyLength, List.take_prefix _ _, by rw [List.length_take]; omega, rfl, rfl⟩
    · rintro ⟨body, hb, hl, rfl, rfl⟩
      rw [← hl, ← List.prefix_iff_eq_take.1 hb]
      exact ⟨_, _, _, 0, ⟨rfl, rfl, rfl⟩, rfl, (completes_of_done rfl).2 ⟨rfl, rfl⟩⟩

/-! ### The header block -/

/-- Behind the empty line stands the body that the fields announce. -/
theorem completes_endHeaders_iff {k : Nat}
    (hr : r.headers = ⟨capacity, collect prior⟩) (hfit : (distinct prior).length ≤ capacity) :
    (∃ t q k' m, p.endHeaders r k = (t, .complete q k') ∧ n = k' + m ∧
        Completes { q with offset := p.offset + k' } t (w.drop k') m s) ↔
      ∃ body, body <+: w.drop k ∧ n = k + body.length ∧
        Request.Carries p.limits capacity prior body s ∧ s.method = r.method ∧ s.uri = r.uri := by
  have hget (name : String) : r.header? name = lastValue? name prior := by
    rw [Request.header?, hr, get?_collect]
  simp only [endHeaders_eq_complete_iff, Request.sequence_eq_ok_iff,
    Request.announcedLength_eq_ok_iff, hget]
  constructor
  · rintro ⟨_, _, _, m, ⟨cseq, length, hc, hn, rfl, rfl, rfl⟩, rfl, hcomp⟩
    obtain ⟨body, hb, hl, rfl, rfl⟩ := (completes_body_iff rfl).1 hcomp
    simp only at hl
    subst hl
    exact ⟨body, hb, rfl, ⟨hfit, hr, hc, hn, rfl⟩, rfl, rfl⟩
  · rintro ⟨body, hb, rfl, hcarries, hmethod, huri⟩
    refine ⟨_, _, _, body.length, ⟨s.cseq, body.length, hcarries.cseq, hcarries.length, rfl, rfl,
      rfl⟩, rfl, (completes_body_iff rfl).2 ⟨body, hb, rfl, rfl, ?_⟩⟩
    have hheaders := hcarries.headers_eq.trans hr.symm
    have hbody := hcarries.body_eq
    cases s
    cases r
    simp_all

/-- One line of the header block: a field more, or the empty line. -/
theorem completes_headers_iff_line (hp : p.stage = .headers)
    (hr : r.headers = ⟨capacity, collect prior⟩) (hfit : (distinct prior).length ≤ capacity) :
    p.Completes r w n s ↔
      (∃ line h rest m, w = line ++ lineFeed :: rest ∧ Header.Line p.limits line h ∧
        (distinct (prior ++ [h])).length ≤ capacity ∧ n = line.length + 1 + m ∧
        Completes { p with offset := p.offset + (line.length + 1) }
          { r with headers := ⟨capacity, collect (prior ++ [h])⟩ } rest m s) ∨
      ∃ last rest body, w = last ++ lineFeed :: rest ∧ (last = [] ∨ last = [carriageReturn]) ∧
        body <+: rest ∧ n = last.length + 1 + body.length ∧
        Request.Carries p.limits capacity prior body s ∧ s.method = r.method ∧
        s.uri = r.uri := by
  rw [completes_iff_step (by simp [hp])]
  constructor
  · rintro ⟨t, q, k, m, hs, hn, hc⟩
    simp only [step, hp] at hs
    split at hs
    · cases hs
    · cases hs
    · rename_i m' k' hread
      rw [hr, HeaderMap.readLine_eq_stored_iff hfit] at hread
      obtain ⟨line, h, rest, rfl, hline, hroom, rfl, rfl⟩ := hread
      cases hs
      rw [drop_line] at hc
      exact .inl ⟨line, h, rest, m, rfl, hline, hroom, hn, hc⟩
    · rename_i k' hread
      obtain ⟨last, rest, rfl, hlast, rfl⟩ := HeaderMap.readLine_eq_blank_iff.1 hread
      have hend := (completes_endHeaders_iff hr hfit).1 ⟨t, q, k, m, hs, hn, hc⟩
      rw [drop_line] at hend
      obtain ⟨body, hb, hend⟩ := hend
      exact .inr ⟨last, rest, body, rfl, hlast, hb, hend⟩
  · rintro (⟨line, h, rest, m, rfl, hline, hroom, hn, hc⟩ |
      ⟨last, rest, body, rfl, hlast, hb, hend⟩)
    · have hread : HeaderMap.readLine p.limits ⟨capacity, collect prior⟩
          (line ++ lineFeed :: rest) = .complete (.stored _) (line.length + 1) :=
        (HeaderMap.readLine_eq_stored_iff hfit).2 ⟨line, h, rest, rfl, hline, hroom, rfl, rfl⟩
      have hstep : p.step r (line ++ lineFeed :: rest) =
          ({ r with headers := ⟨capacity, collect (prior ++ [h])⟩ },
            .complete p (line.length + 1)) := by
        simp only [step, hp]
        rw [hr, hread]
      exact ⟨_, p, _, m, hstep, hn, by rwa [drop_line]⟩
    · have hread : r.headers.readLine p.limits (last ++ lineFeed :: rest) =
          .complete .blank (last.length + 1) :=
        HeaderMap.readLine_eq_blank_iff.2 ⟨last, rest, rfl, hlast, rfl⟩
      have hstep : p.step r (last ++ lineFeed :: rest) = p.endHeaders r (last.length + 1) := by
        simp only [step, hp]
        rw [hread]
      rw [hstep, completes_endHeaders_iff hr hfit, drop_line]
      exact ⟨body, hb, hend⟩

/-- The whole block, by its lines: each takes a field to the ones before. -/
theorem completes_of_block {t : BlockText} {fields : List Header} (hp : p.stage = .headers)
    (hr : r.headers = ⟨capacity, collect prior⟩) (ht : t.Spells p.limits fields)
    (hs : Request.Carries p.limits capacity (prior ++ fields) t.body s)
    (hmethod : s.method = r.method) (huri : s.uri = r.uri) (hw : t.bytes <+: w) :
    p.Completes r w t.bytes.length s := by
  obtain ⟨lines, last, body⟩ := t
  obtain ⟨hlines, hlast⟩ := ht
  obtain ⟨tail, rfl⟩ := hw
  simp only at hlines hlast hs
  generalize hl : p.limits = limits at hlines hs
  induction hlines generalizing p r prior with
  | nil =>
    rw [List.append_nil] at hs
    subst hl
    rw [completes_headers_iff_line hp hr hs.names_fit]
    refine .inr ⟨last, body ++ tail, body, ?_, hlast, List.prefix_append _ _, ?_, hs, hmethod, huri⟩
    · simp [BlockText.bytes]
    · simp [BlockText.bytes]
      omega
  | @cons line h lines fields hline _ ih =>
    have hsplit : prior ++ h :: fields = prior ++ [h] ++ fields := by simp
    rw [hsplit] at hs
    have hroom := Nat.le_trans (length_distinct_le_append (prior ++ [h]) fields) hs.names_fit
    have hfit := Nat.le_trans (length_distinct_le_append prior [h]) hroom
    rw [completes_headers_iff_line hp hr hfit]
    have hrest := ih (p := { p with offset := p.offset + (line.length + 1) })
      (r := { r with headers := ⟨capacity, collect (prior ++ [h])⟩ }) hp rfl hmethod huri hl hs
    subst hl
    refine .inl ⟨line, h, _, _, ?_, hline, hroom, ?_, hrest⟩
    · simp [BlockText.bytes]
    · simp [BlockText.bytes]
      omega

/-- The induction is on the bytes: a line that was read leaves fewer of them. -/
theorem block_of_completes (hp : p.stage = .headers)
    (hr : r.headers = ⟨capacity, collect prior⟩) (hfit : (distinct prior).length ≤ capacity)
    (hc : p.Completes r w n s) :
    ∃ (t : BlockText) (fields : List Header), t.bytes <+: w ∧ t.bytes.length = n ∧
      t.Spells p.limits fields ∧ Request.Carries p.limits capacity (prior ++ fields) t.body s ∧
      s.method = r.method ∧ s.uri = r.uri := by
  induction hlen : w.length using Nat.strong_induction_on generalizing p r w n prior with
  | _ length ih =>
    rcases (completes_headers_iff_line hp hr hfit).1 hc with
      ⟨line, h, rest, m, rfl, hline, hroom, rfl, hrest⟩ |
      ⟨last, rest, body, rfl, hlast, ⟨tail, rfl⟩, rfl, hs, hmethod, huri⟩
    · have hlt : rest.length < length := by
        rw [← hlen, List.length_append, List.length_cons]
        omega
      obtain ⟨t, fields, ⟨tail, rfl⟩, rfl, ⟨hlines, hlast⟩, hs, hmethod, huri⟩ :=
        ih _ hlt (p := { p with offset := p.offset + (line.length + 1) }) hp rfl hroom
          hrest rfl
      refine ⟨{ t with lines := line :: t.lines }, h :: fields, ⟨tail, ?_⟩, ?_,
        ⟨.cons hline hlines, hlast⟩, ?_, hmethod, huri⟩
      · simp [BlockText.bytes]
      · simp [BlockText.bytes]
        omega
      · rwa [List.append_assoc] at hs
    · refine ⟨⟨[], last, body⟩, [], ⟨tail, ?_⟩, ?_, ⟨.nil, hlast⟩, ?_, hmethod, huri⟩
      · simp [BlockText.bytes]
      · simp [BlockText.bytes]
        omega
      · rwa [List.append_nil]

/-! ### The first line -/

theorem drop_parts (a b c : Bytes) : (a ++ b ++ c).drop (a.length + b.length) = c := by
  rw [← List.length_append, List.drop_left]

/-- Blanks that have to stand somewhere end the token in front of them. -/
theorem exists_separator {gap : Bytes} (hne : gap ≠ []) (hgap : ∀ b ∈ gap, isSpace b)
    (more : Bytes) : ∃ sep rest, gap ++ more = sep :: rest ∧ isSeparator sep := by
  obtain ⟨sep, rest, rfl⟩ := List.exists_cons_of_ne_nil hne
  exact ⟨sep, rest ++ more, rfl, isSeparator_of_isSpace (hgap sep List.mem_cons_self)⟩

theorem completes_version_iff (hp : p.stage = .version) (hr : r.headers = .empty capacity) :
    p.Completes r w n s ↔
      ∃ (t : VersionText) (fields : List Header), t.bytes <+: w ∧ t.bytes.length = n ∧
        t.Denotes p.limits capacity fields s ∧ s.method = r.method ∧ s.uri = r.uri := by
  have hs : p.step r w = store (Version.read w) r ({ r with version := · })
      { p with stage := .headers } := by
    simp only [step, hp]
  have hdrop (space content rest : Bytes) :
      (space ++ content ++ lineFeed :: rest).drop (space.length + (content.length + 1)) =
        rest := by
    rw [← Nat.add_assoc, ← List.length_append, List.drop_length_add_append]
    rfl
  have hcollect : r.headers = ⟨capacity, collect []⟩ := hr
  have hlength (t : VersionText) :
      t.bytes.length = t.space.length + (t.version.length + 1) + t.block.bytes.length := by
    simp [VersionText.bytes]
    omega
  rw [completes_iff_read (by simp [hp]) hs]
  constructor
  · rintro ⟨v, k, m, hread, rfl, hc⟩
    obtain ⟨space, content, rest, rfl, hsp, hle, hv, rfl⟩ := Version.read_eq_complete_iff.1 hread
    rw [hdrop] at hc
    obtain ⟨t, fields, ⟨tail, rfl⟩, rfl, ht, hs, hmethod, huri⟩ :=
      block_of_completes rfl hcollect (Nat.zero_le _) hc
    refine ⟨⟨space, content, t⟩, fields, ⟨tail, ?_⟩, hlength _, ⟨hsp, hle, hv, ht, hs⟩, hmethod,
      huri⟩
    simp [VersionText.bytes]
  · rintro ⟨t, fields, ⟨tail, rfl⟩, rfl, ht, hmethod, huri⟩
    have hw : t.bytes ++ tail = t.space ++ t.version ++ lineFeed :: (t.block.bytes ++ tail) := by
      simp [VersionText.bytes]
    rw [hw]
    refine ⟨.rtsp10, _, _, Version.read_eq_complete_iff.2 ⟨t.space, t.version,
      t.block.bytes ++ tail, rfl, ht.space, ht.space_fits, ht.version, rfl⟩, hlength t, ?_⟩
    rw [hdrop]
    exact completes_of_block rfl hcollect ht.block ht.carries hmethod huri
      (List.prefix_append _ _)

/-- Behind a separator a version line can only stand after blanks. -/
theorem space_ne_nil {t : VersionText} {fields : List Header} {limits : Limits} {sep : UInt8}
    (ht : t.Denotes limits capacity fields s) (hsep : isSeparator sep)
    (hw : t.bytes <+: sep :: w) : t.space ≠ [] := by
  intro hnil
  obtain ⟨tail, htail⟩ := hw
  have hhead : (t.bytes ++ tail).head? = some 0x52 := by
    simp [VersionText.bytes, hnil, List.head?_append, ht.version.head?]
  rw [htail] at hhead
  cases hhead
  exact absurd hsep (by decide)

theorem completes_target_iff (hp : p.stage = .target) (hr : r.headers = .empty capacity) :
    p.Completes r w n s ↔
      ∃ (t : TargetText) (fields : List Header), t.bytes <+: w ∧ t.bytes.length = n ∧
        t.Denotes p.limits capacity fields s ∧ s.method = r.method := by
  have hs : p.step r w = store (readTarget p.limits w) r ({ r with uri := · })
      { p with stage := .version } := by
    simp only [step, hp]
  rw [completes_iff_read (by simp [hp]) hs]
  constructor
  · rintro ⟨uri, k, m, hread, rfl, hc⟩
    obtain ⟨gap, target, sep, rest, rfl, hgap, hne, hg, rfl, hsep, rfl, hle⟩ :=
      readTarget_eq_complete_iff.1 hread
    rw [drop_parts] at hc
    obtain ⟨t, fields, hw, rfl, ht, hmethod, huri⟩ :=
      (completes_version_iff (r := { r with uri := Text.ofAscii target }) rfl hr).1 hc
    refine ⟨⟨gap, target, t⟩, fields, ?_, ?_, ⟨hgap, hne, hg, hle, huri,
      space_ne_nil ht hsep hw, ht⟩, hmethod⟩
    · rw [TargetText.bytes, List.prefix_append_right_inj]
      exact hw
    · simp [TargetText.bytes, Nat.add_assoc]
  · rintro ⟨t, fields, ⟨tail, rfl⟩, rfl, ht, hmethod⟩
    -- the blank in front of the version is what ends the target
    obtain ⟨sep, rest, hrest, hsep⟩ := exists_separator ht.space_ne ht.rest.space
      (t.rest.version ++ lineFeed :: t.rest.block.bytes ++ tail)
    have hw : t.bytes ++ tail = t.gap ++ t.target ++ (t.rest.bytes ++ tail) := by
      rw [TargetText.bytes, List.append_assoc]
    have hrest : t.rest.bytes ++ tail = sep :: rest := by
      rw [← hrest]
      simp only [VersionText.bytes, List.append_assoc]
    rw [hw, hrest]
    refine ⟨_, _, t.rest.bytes.length, readTarget_eq_complete_iff.2 ⟨t.gap, t.target, sep, rest,
      rfl, ht.gap, ht.target_ne, ht.target, rfl, hsep, rfl,
      ht.target_fits⟩, by simp [TargetText.bytes, Nat.add_assoc], ?_⟩
    rw [drop_parts, ← hrest]
    exact (completes_version_iff (r := { r with uri := Text.ofAscii t.target }) rfl hr).2
      ⟨t.rest, fields, List.prefix_append _ _, rfl, ht.rest, hmethod, ht.uri_eq⟩

/-- Behind a separator a target can only stand after blanks. -/
theorem gap_ne_nil {t : TargetText} {fields : List Header} {limits : Limits} {sep : UInt8}
    (ht : t.Denotes limits capacity fields s) (hsep : isSeparator sep)
    (hw : t.bytes <+: sep :: w) : t.gap ≠ [] := by
  intro hnil
  obtain ⟨tail, htail⟩ := hw
  obtain ⟨b, target, htarget⟩ := List.exists_cons_of_ne_nil ht.target_ne
  have hb : isGraphic b := ht.target b (by rw [htarget]; exact List.mem_cons_self)
  rw [TargetText.bytes, hnil, htarget] at htail
  cases htail
  rw [not_isSeparator_of_isGraphic hb] at hsep
  cases hsep

theorem completes_method_iff (hp : p.stage = .method) :
    p.Completes r w n s ↔
      ∃ (t : RequestText) (fields : List Header), t.bytes <+: w ∧ t.bytes.length = n ∧
        t.Denotes p.limits r.headers.capacity fields s := by
  have hs : p.step r w = store (Method.read p.limits w) r.clear ({ r.clear with method := · })
      { p with stage := .target } := by
    simp only [step, hp]
  rw [completes_iff_read (by simp [hp]) hs]
  constructor
  · rintro ⟨method, k, m, hread, rfl, hc⟩
    obtain ⟨lead, token, sep, rest, rfl, hlead, hm, hsep, rfl, hle⟩ :=
      Method.read_eq_complete_iff.1 hread
    rw [drop_parts] at hc
    obtain ⟨t, fields, hw, rfl, ht, rfl⟩ := (completes_target_iff rfl rfl).1 hc
    refine ⟨⟨lead, token, t⟩, fields, ?_, ?_, ⟨hlead, hm, hle, gap_ne_nil ht hsep hw, ht⟩⟩
    · rw [RequestText.bytes, List.prefix_append_right_inj]
      exact hw
    · simp [RequestText.bytes, Nat.add_assoc]
  · rintro ⟨t, fields, ⟨tail, rfl⟩, rfl, ht⟩
    -- the blank in front of the target is what ends the method
    obtain ⟨sep, rest, hrest, hsep⟩ := exists_separator ht.gap_ne ht.rest.gap
      (t.rest.target ++ t.rest.rest.bytes ++ tail)
    have hrest : t.rest.bytes ++ tail = sep :: rest := by
      rw [← hrest]
      simp only [TargetText.bytes, List.append_assoc]
    have hw : t.bytes ++ tail = t.lead ++ t.method ++ (t.rest.bytes ++ tail) := by
      rw [RequestText.bytes, List.append_assoc]
    rw [hw, hrest]
    refine ⟨s.method, _, t.rest.bytes.length, Method.read_eq_complete_iff.2 ⟨t.lead, t.method, sep,
      rest, rfl, ht.lead, ht.method, hsep, rfl, ht.method_fits⟩,
      by simp [RequestText.bytes, Nat.add_assoc], ?_⟩
    rw [drop_parts, ← hrest]
    exact (completes_target_iff rfl rfl).2
      ⟨t.rest, fields, List.prefix_append _ _, rfl, ht.rest, rfl⟩

theorem result_eq_complete_iff :
    p.result = .ok ⟨n, true⟩ ↔ p.stage = .done ∧ p.offset = n := by
  unfold result
  split <;> simp_all

theorem result_eq_error_iff {e : ParseError} : p.result = .error e ↔ p.stage = .failed e := by
  unfold result
  split <;> simp_all

/-- One parse completes at `n` with the request `r` exactly if the first `n` bytes are a
well-formed request within the limits that says what `r` holds. -/
theorem parse_completes_iff_denotes {limits : Limits} {old : Request} {input : Bytes} :
    (∃ p, ({ limits } : Parser).parse old input = (p, r) ∧ p.result = .ok ⟨n, true⟩) ↔
      ∃ (t : RequestText) (fields : List Header), t.bytes <+: input ∧ t.bytes.length = n ∧
        t.Denotes limits old.headers.capacity fields r := by
  rw [← completes_method_iff (p := { limits }) rfl, Completes]
  simp only [parse, List.drop_zero, result_eq_complete_iff, Nat.zero_add]
  constructor
  · rintro ⟨p, hp, hdone, hn⟩
    rw [hp]
    exact ⟨rfl, hdone, hn⟩
  · rintro ⟨rfl, hdone, hn⟩
    exact ⟨_, rfl, hdone, hn⟩

end RealTimeStreaming.Parser
