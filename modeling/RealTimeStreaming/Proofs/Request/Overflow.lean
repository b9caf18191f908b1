import RealTimeStreaming.Proofs.Request.Faults
import RealTimeStreaming.Proofs.Request.HeaderTable
import RealTimeStreaming.Proofs.Request.Progress
import RealTimeStreaming.Proofs.Request.Widening

/-! When the headers of a request overflow. Behind a first line the parser takes header lines one
by one as long as their names fit, and stops in front of the first line whose name is one too many.
What it has taken by then is the table of the fields before that line. Lines that repeat a name
take no room. -/

namespace RealTimeStreaming

open Octet

variable {limits : Limits} {capacity : Nat} {fields : List Header}

/-! ### Lines without room -/

theorem Header.ofLine_ne_headersFull (line : Bytes) : ofLine line ≠ .error .headersFull := by
  intro h
  unfold ofLine at h
  split at h
  · cases h
  · dsimp only at h
    split at h
    · split at h <;> cases h
    · cases h

theorem HeaderMap.storeLine_eq_headersFull_iff {line : Bytes}
    (hfit : (distinct fields).length ≤ capacity) :
    HeaderMap.storeLine ⟨capacity, collect fields⟩ line = .error .headersFull ↔
      ∃ h, Header.ofLine line = .ok h ∧ ¬ (distinct (fields ++ [h])).length ≤ capacity := by
  unfold storeLine
  split
  · rename_i hnil
    rw [List.isEmpty_iff] at hnil
    subst hnil
    simp [Header.ofLine, Text.cutAt]
  · cases hline : Header.ofLine line with
    | error e =>
      have hne := Header.ofLine_ne_headersFull line
      rw [hline] at hne
      simpa [bind, Except.bind] using hne
    | ok h =>
      simp only [bind, Except.bind, insert_collect hfit h, Except.ok.injEq, exists_eq_left']
      by_cases hroom : (distinct (fields ++ [h])).length ≤ capacity
      · simp [hroom, pure, Except.pure]
      · simp [hroom]

/-- A line finds no room if it spells a header whose name is one too many. -/
theorem HeaderMap.readLine_eq_headersFull_iff {input : Bytes}
    (hfit : (distinct fields).length ≤ capacity) :
    HeaderMap.readLine limits ⟨capacity, collect fields⟩ input = .failed .headersFull ↔
      ∃ line h rest, input = line ++ lineFeed :: rest ∧ Header.Line limits line h ∧
        ¬ (distinct (fields ++ [h])).length ≤ capacity := by
  have hscan : scanLine .text limits.headerLine input ≠ .failed .headersFull := by
    simp only [scanLine]
    split
    · split <;> simp
    · split <;> simp
  rw [readLine]
  constructor
  · intro h
    cases hs : scanLine .text limits.headerLine input with
    | needMore =>
      rw [hs] at h
      cases h
    | failed e =>
      rw [hs] at h hscan
      cases h
      exact absurd rfl hscan
    | complete line n =>
      obtain ⟨content, rest, rfl, hlf, rfl, hle, -⟩ := scanLine_eq_complete_iff.1 hs
      rw [hs] at h
      simp only [Reading.check] at h
      split at h
      · cases h
      · rename_i e hstore
        cases h
        obtain ⟨f, hf, hroom⟩ := (storeLine_eq_headersFull_iff hfit).1 hstore
        exact ⟨content, f, rest, rfl, ⟨hlf, hle, Header.ofLine_eq_ok_iff.1 hf⟩, hroom⟩
  · rintro ⟨line, f, rest, rfl, hline, hroom⟩
    have hs : scanLine .text limits.headerLine (line ++ lineFeed :: rest) =
        .complete (withoutReturn line) (line.length + 1) :=
      scanLine_eq_complete_iff.2 ⟨line, rest, rfl, hline.no_lineFeed, rfl, hline.fits, rfl⟩
    have hstore : HeaderMap.storeLine ⟨capacity, collect fields⟩ (withoutReturn line) =
        .error .headersFull :=
      (storeLine_eq_headersFull_iff hfit).2 ⟨f, Header.ofLine_eq_ok_iff.2 hline.spells, hroom⟩
    simp only [hs, Reading.check, hstore]

/-- No header line stands at the start: what stands there is empty, unfinished or malformed. -/
def NoHeaderLine (limits : Limits) (bytes : Bytes) : Prop :=
  ∀ line f rest, bytes = line ++ lineFeed :: rest → ¬ Header.Line limits line f

/-- Behind the empty line there are no header lines any more. -/
theorem noHeaderLine_of_blank {last : Bytes} (hlast : last = [] ∨ last = [carriageReturn])
    (rest : Bytes) : NoHeaderLine limits (last ++ lineFeed :: rest) := by
  intro line f more hsplit hline
  have hlf : lineFeed ∉ last := by
    rcases hlast with rfl | rfl <;> decide
  have hcut : line = last := by
    have hline' := Text.cutAt_append hline.no_lineFeed more
    rw [← hsplit, Text.cutAt_append hlf] at hline'
    exact (Prod.ext_iff.1 (Option.some.inj hline')).1.symm
  obtain ⟨t, hbytes, -⟩ := hline.spells
  rw [hcut, withoutReturn_eq_nil_iff.2 hlast] at hbytes
  simp [FieldText.bytes] at hbytes

namespace Parser

variable {p q : Parser} {r s : Request} {w : Bytes} {prior : List Header}

theorem run_of_read {part : Bytes} (h : p.step r (part ++ w) = (s, .complete q part.length)) :
    p.run r (part ++ w) = run { q with offset := p.offset + part.length } s w := by
  rw [run_of_complete h, List.drop_left]

/-! ### The first line -/

theorem run_of_methodPart {start : Bytes} (h : MethodPart limits start) (old : Request)
    (hw : ∃ sep rest, w = sep :: rest ∧ isSeparator sep) :
    ∃ r, r.headers = .empty old.headers.capacity ∧
      ({ limits } : Parser).run old (start ++ w) =
        run { limits, stage := .target, offset := start.length } r w := by
  obtain ⟨lead, token, m, rfl, hlead, hm, hle⟩ := h
  obtain ⟨sep, rest, rfl, hsep⟩ := hw
  have hread : Method.read limits (lead ++ token ++ sep :: rest) =
      .complete m (lead ++ token).length :=
    Method.read_eq_complete_iff.2 ⟨lead, token, sep, rest, rfl, hlead, hm, hsep,
      List.length_append, by rwa [List.length_append]⟩
  have hs : ({ limits } : Parser).step old (lead ++ token ++ sep :: rest) =
      ({ old.clear with method := m },
        .complete { limits, stage := .target } (lead ++ token).length) := by
    simp only [step, hread, store]
  refine ⟨{ old.clear with method := m }, rfl, ?_⟩
  rw [run_of_read hs, Nat.zero_add]

theorem run_of_targetPart {start : Bytes} (h : TargetPart limits start) (old : Request)
    (hw : ∃ sep rest, w = sep :: rest ∧ isSeparator sep) :
    ∃ r, r.headers = .empty old.headers.capacity ∧
      ({ limits } : Parser).run old (start ++ w) =
        run { limits, stage := .version, offset := start.length } r w := by
  obtain ⟨start, gap, token, rfl, hstart, hne, hgap, htoken, hg, hle⟩ := h
  have hblank : ∃ sep rest, gap ++ token ++ w = sep :: rest ∧ isSeparator sep := by
    rw [List.append_assoc]
    exact exists_separator hne hgap _
  obtain ⟨r, hr, hrun⟩ := run_of_methodPart hstart old hblank
  obtain ⟨sep, rest, rfl, hsep⟩ := hw
  have hread : readTarget limits (gap ++ token ++ sep :: rest) =
      .complete (Text.ofAscii token) (gap ++ token).length :=
    readTarget_eq_complete_iff.2 ⟨gap, token, sep, rest, rfl, hgap, htoken, hg, rfl, hsep,
      List.length_append, by rwa [List.length_append]⟩
  have hs : step { limits, stage := .target, offset := start.length } r
      (gap ++ token ++ sep :: rest) = ({ r with uri := Text.ofAscii token },
        .complete { limits, stage := .version, offset := start.length }
          (gap ++ token).length) := by
    simp only [step, hread, store]
  have hoffset : (start ++ (gap ++ token)).length = start.length + (gap ++ token).length :=
    List.length_append
  refine ⟨{ r with uri := Text.ofAscii token }, hr, ?_⟩
  rw [List.append_assoc, hrun, run_of_read hs, hoffset]

/-- A first line is read whole, and the headers are empty behind it. -/
theorem run_of_firstLine {first : Bytes} (h : FirstLine limits first) (old : Request)
    (w : Bytes) :
    ∃ r, r.headers = .empty old.headers.capacity ∧
      ({ limits } : Parser).run old (first ++ w) =
        run { limits, stage := .headers, offset := first.length } r w := by
  obtain ⟨start, space, content, rfl, hstart, hne, hspace, hle, hcontent⟩ := h
  have hblank : ∃ sep rest,
      space ++ content ++ [lineFeed] ++ w = sep :: rest ∧ isSeparator sep := by
    rw [List.append_assoc, List.append_assoc]
    exact exists_separator hne hspace _
  obtain ⟨r, hr, hrun⟩ := run_of_targetPart hstart old hblank
  have hread : Version.read (space ++ content ++ [lineFeed] ++ w) =
      .complete .rtsp10 (space ++ content ++ [lineFeed]).length :=
    Version.read_eq_complete_iff.2 ⟨space, content, w, by simp, hspace, hle, hcontent,
      by simp⟩
  have hs : step { limits, stage := .version, offset := start.length } r
      (space ++ content ++ [lineFeed] ++ w) = ({ r with version := .rtsp10 },
        .complete { limits, stage := .headers, offset := start.length }
          (space ++ content ++ [lineFeed]).length) := by
    simp only [step, hread, store]
  have hoffset : (start ++ (space ++ content ++ [lineFeed])).length =
      start.length + (space ++ content ++ [lineFeed]).length := List.length_append
  refine ⟨{ r with version := .rtsp10 }, hr, ?_⟩
  rw [List.append_assoc, hrun, run_of_read hs, hoffset]

/-! ### Header lines -/

theorem run_of_line {line : Bytes} {f : Header} (hp : p.stage = .headers)
    (hr : r.headers = ⟨capacity, collect prior⟩) (hline : Header.Line p.limits line f)
    (hroom : (distinct (prior ++ [f])).length ≤ capacity) (w : Bytes) :
    p.run r (line ++ [lineFeed] ++ w) =
      run { p with offset := p.offset + (line ++ [lineFeed]).length }
        { r with headers := ⟨capacity, collect (prior ++ [f])⟩ } w := by
  have hfit := Nat.le_trans (length_distinct_le_append prior [f]) hroom
  have hread : HeaderMap.readLine p.limits ⟨capacity, collect prior⟩ (line ++ [lineFeed] ++ w) =
      .complete (.stored ⟨capacity, collect (prior ++ [f])⟩) (line ++ [lineFeed]).length :=
    (HeaderMap.readLine_eq_stored_iff hfit).2
      ⟨line, f, w, by simp, hline, hroom, rfl, by simp⟩
  apply run_of_read
  simp only [step, hp, hr, hread]

/-- Lines whose names fit are taken one by one, by induction on them. -/
theorem run_of_lines {lines : List Bytes} (hp : p.stage = .headers) (hl : p.limits = limits)
    (hr : r.headers = ⟨capacity, collect prior⟩)
    (hlines : List.Forall₂ (Header.Line limits) lines fields)
    (hroom : (distinct (prior ++ fields)).length ≤ capacity) (w : Bytes) :
    ∃ s, s.headers = ⟨capacity, collect (prior ++ fields)⟩ ∧
      p.run r (lines.flatMap (· ++ [lineFeed]) ++ w) =
        run { p with offset := p.offset + (lines.flatMap (· ++ [lineFeed])).length } s w := by
  induction hlines generalizing p r prior with
  | nil => exact ⟨r, by rwa [List.append_nil], rfl⟩
  | @cons line f lines fields hline _ ih =>
    subst hl
    rw [List.append_cons] at hroom
    have hfirst := Nat.le_trans (length_distinct_le_append (prior ++ [f]) fields) hroom
    obtain ⟨s, hs, hrun⟩ := ih
      (p := { p with offset := p.offset + (line ++ [lineFeed]).length })
      (r := { r with headers := ⟨capacity, collect (prior ++ [f])⟩ }) hp rfl rfl hroom
    have hoffset : (line ++ [lineFeed] ++ lines.flatMap (· ++ [lineFeed])).length =
        (line ++ [lineFeed]).length + (lines.flatMap (· ++ [lineFeed])).length :=
      List.length_append
    refine ⟨s, by rwa [List.append_cons], ?_⟩
    rw [List.flatMap_cons, List.append_assoc, run_of_line hp hr hline hfirst, hrun, hoffset,
      Nat.add_assoc]

/-- A line whose name is one too many is refused where it starts. -/
theorem run_of_line_without_room {line : Bytes} {f : Header} (hp : p.stage = .headers)
    (hr : r.headers = ⟨capacity, collect prior⟩) (hfit : (distinct prior).length ≤ capacity)
    (hline : Header.Line p.limits line f)
    (hroom : ¬ (distinct (prior ++ [f])).length ≤ capacity) (w : Bytes) :
    p.run r (line ++ [lineFeed] ++ w) = ({ p with stage := .failed .headersFull }, r) := by
  have hread : HeaderMap.readLine p.limits ⟨capacity, collect prior⟩ (line ++ [lineFeed] ++ w) =
      .failed .headersFull :=
    (HeaderMap.readLine_eq_headersFull_iff hfit).2 ⟨line, f, w, by simp, hline, hroom⟩
  apply run_of_failed
  simp only [step, hp, hr, hread]

theorem stage_ne_failed_of_body {e : ParseError} (hp : p.stage = .body) :
    (p.run r w).1.stage ≠ .failed e := by
  obtain h | ⟨h, -⟩ := run_of_body (r := r) (w := w) hp
  · simp [h]
  · simp [h]

/-- Where no header line stands the headers do not overflow, whatever else is wrong there. -/
theorem stage_ne_headersFull (hp : p.stage = .headers)
    (hr : r.headers = ⟨capacity, collect prior⟩) (hfit : (distinct prior).length ≤ capacity)
    (hw : NoHeaderLine p.limits w) : (p.run r w).1.stage ≠ .failed .headersFull := by
  rcases hs : p.step r w with ⟨s, reading⟩
  cases reading with
  | needMore =>
    rw [run_of_needMore hs, hp]
    simp
  | failed e =>
    rw [run_of_failed hs]
    rintro ⟨⟩
    cases refuses_of_step hs with
    | line _ hread =>
      rw [hr, HeaderMap.readLine_eq_headersFull_iff hfit] at hread
      obtain ⟨line, f, rest, hsplit, hline, -⟩ := hread
      exact hw line f rest hsplit hline
    | sequence _ _ hsequence =>
      obtain ⟨-, he⟩ | ⟨_, -, he, -⟩ := Request.sequence_eq_error hsequence
      · cases he
      · cases he
    | length _ _ _ hlength =>
      obtain ⟨_, -, he, -⟩ := Request.announcedLength_eq_error hlength
      cases he
    | _ hstage => simp [hp] at hstage
  | complete q n =>
    rw [run_of_complete hs]
    cases advances_of_step hs with
    | line _ hread =>
      rw [hr, HeaderMap.readLine_eq_stored_iff hfit] at hread
      obtain ⟨line, f, rest, hsplit, hline, -⟩ := hread
      exact absurd hline (hw line f rest hsplit)
    | blank => exact stage_ne_failed_of_body rfl
    | _ hstage => simp [hp] at hstage

/-! ### Whole header blocks -/

section Block

variable {head first tail line : Bytes} {lines : List Bytes} {f : Header}

/-- Behind a first line and header lines whose names fit, the headers hold their fields. -/
theorem parse_of_headPart (h : HeadPart limits prior head) (old : Request)
    (hfit : (distinct prior).length ≤ old.headers.capacity) (w : Bytes) :
    ∃ r, r.headers = ⟨old.headers.capacity, collect prior⟩ ∧
      ({ limits } : Parser).parse old (head ++ w) =
        run { limits, stage := .headers, offset := head.length } r w := by
  obtain ⟨first, lines, rfl, hfirst, hlines⟩ := h
  obtain ⟨r, hr, hread⟩ := run_of_firstLine hfirst old (lines.flatMap (· ++ [lineFeed]) ++ w)
  have hempty : r.headers = ⟨old.headers.capacity, collect []⟩ := hr
  obtain ⟨s, hs, htaken⟩ :=
    run_of_lines (p := { limits, stage := .headers, offset := first.length }) rfl rfl hempty hlines
      hfit w
  refine ⟨s, hs, ?_⟩
  rw [parse, List.drop_zero, List.append_assoc, hread, htaken, List.length_append]

theorem parse_ne_headersFull (hhead : HeadPart limits fields head)
    (htail : NoHeaderLine limits tail) (old : Request)
    (hroom : (distinct fields).length ≤ old.headers.capacity) :
    (({ limits } : Parser).parse old (head ++ tail)).1.stage ≠ .failed .headersFull := by
  obtain ⟨r, hr, hparse⟩ := parse_of_headPart hhead old hroom tail
  rw [hparse]
  exact stage_ne_headersFull rfl hr hroom htail

/-- The parser stops in front of the first line that finds no room. -/
theorem parse_of_line_without_room (hhead : HeadPart limits prior head)
    (hline : Header.Line limits line f) (old : Request)
    (hfull : (distinct prior).length = old.headers.capacity)
    (hnew : lastValue? f.name prior = none) (w : Bytes) :
    let last := ({ limits } : Parser).parse old (head ++ (line ++ [lineFeed] ++ w))
    last.1.stage = .failed .headersFull ∧ last.1.offset = head.length ∧
      last.2.headers = ⟨old.headers.capacity, collect prior⟩ := by
  have hfit : (distinct prior).length ≤ old.headers.capacity := Nat.le_of_eq hfull
  have hroom := (HeaderMap.not_fits_iff hfit).2 ⟨hnew, hfull⟩
  obtain ⟨r, hr, hparse⟩ := parse_of_headPart hhead old hfit (line ++ [lineFeed] ++ w)
  rw [hparse, run_of_line_without_room rfl hr hfit hline hroom]
  exact ⟨rfl, rfl, hr⟩

theorem exists_line_of_field {before after : List Header}
    (hlines : List.Forall₂ (Header.Line limits) lines (before ++ f :: after)) :
    ∃ line more, lines = lines.take before.length ++ line :: more ∧
      List.Forall₂ (Header.Line limits) (lines.take before.length) before ∧
      Header.Line limits line f := by
  have hbehind := List.forall₂_drop_append lines before (f :: after) hlines
  obtain ⟨line, more, hline, -, hdrop⟩ := List.forall₂_cons_right_iff.1 hbehind
  refine ⟨line, more, ?_, List.forall₂_take_append lines before (f :: after) hlines, hline⟩
  rw [← hdrop, List.take_append_drop]

/-- Headers overflow at the first name that is one too many, and only there. A first line
within the limits, header lines, and what is no header line any more, shown in any parts: the
parse fails for want of room exactly when the lines name more headers than fit. So repeating the
same few names never does it. The parser stops where the line of that name starts, and the headers
hold the names that fit in order of their first lines, each with its last value up to there. -/
theorem parseAll_headersFull_iff (hl : limits.NoWrap) (hfirst : FirstLine limits first)
    (hlines : List.Forall₂ (Header.Line limits) lines fields) (htail : NoHeaderLine limits tail)
    (old : Request) (cuts : List Nat) :
    let x := first ++ lines.flatMap (· ++ [lineFeed]) ++ tail
    let last := ({ limits } : Parser).parseAll old (cuts.map x.take ++ [x])
    let capacity := old.headers.capacity
    (last.1.result = .error .headersFull ↔ capacity < (distinct fields).length) ∧
    (∀ names : List String, names.length ≤ capacity →
      (∀ f ∈ fields, ∃ name ∈ names, Text.foldCase f.name = Text.foldCase name) →
      last.1.result ≠ .error .headersFull) ∧
    (last.1.result = .error .headersFull →
      ∃ before f after, fields = before ++ f :: after ∧ (distinct before).length = capacity ∧
        lastValue? f.name before = none ∧
        last.1.offset =
          (first ++ (lines.take before.length).flatMap (· ++ [lineFeed])).length ∧
        last.2.headers.entries.map Header.name =
          ((distinct fields).take capacity).map Header.name ∧
        ∀ h ∈ last.2.headers.entries, lastValue? h.name before = some h.value) := by
  intro x last capacity
  have hlast : last = ({ limits } : Parser).parse old x := parseAll_take_snoc hl rfl old x cuts
  have hfits (hroom : (distinct fields).length ≤ capacity) :
      last.1.result ≠ .error .headersFull := by
    rw [ne_eq, result_eq_error_iff, hlast]
    exact parse_ne_headersFull ⟨first, lines, rfl, hfirst, hlines⟩ htail old hroom
  have hoverflow (hroom : capacity < (distinct fields).length) :
      ∃ before f after, fields = before ++ f :: after ∧ (distinct before).length = capacity ∧
        lastValue? f.name before = none ∧ last.1.stage = .failed .headersFull ∧
        last.1.offset =
          (first ++ (lines.take before.length).flatMap (· ++ [lineFeed])).length ∧
        last.2.headers = ⟨capacity, collect before⟩ := by
    obtain ⟨before, f, after, rfl, hfull, hnew⟩ := HeaderMap.exists_first_refused hroom
    obtain ⟨line, more, hsplit, hbefore, hline⟩ := exists_line_of_field hlines
    have hx : x = first ++ (lines.take before.length).flatMap (· ++ [lineFeed]) ++
        (line ++ [lineFeed] ++ (more.flatMap (· ++ [lineFeed]) ++ tail)) := by
      simp only [x]
      conv => lhs; rw [hsplit]
      simp
    refine ⟨before, f, after, rfl, hfull, hnew, ?_⟩
    rw [hlast, hx]
    exact parse_of_line_without_room ⟨first, _, rfl, hfirst, hbefore⟩ hline old hfull hnew _
  have hiff : last.1.result = .error .headersFull ↔ capacity < (distinct fields).length := by
    constructor
    · intro hresult
      exact Nat.lt_of_not_le fun hroom => hfits hroom hresult
    · intro hroom
      obtain ⟨_, _, _, -, -, -, hstage, -⟩ := hoverflow hroom
      exact result_eq_error_iff.2 hstage
  refine ⟨hiff, ?_, ?_⟩
  · intro names hroom hnames
    exact hfits (Nat.le_trans (HeaderMap.length_distinct_le_of_names hnames) hroom)
  · intro hresult
    obtain ⟨before, f, after, hsplit, hfull, hnew, -, hoffset, hheaders⟩ :=
      hoverflow (hiff.1 hresult)
    refine ⟨before, f, after, hsplit, hfull, hnew, hoffset, ?_, ?_⟩
    · rw [hheaders, map_name_collect, hsplit, distinct_append, List.take_left' hfull]
    · intro h hm
      rw [hheaders] at hm
      exact lastValue?_of_mem_collect hm

/-- Two spellings of one name and a second name, with room for one. -/
theorem parseAll_headersFull_second_name :
    let first := Text.utf8 "PLAY * RTSP/1.0\r\n"
    let lines := ["A: 1\r", "a: 2\r", "B: 3\r"].map Text.utf8
    let fields : List Header := [⟨"A", "1"⟩, ⟨"a", "2"⟩, ⟨"B", "3"⟩]
    let tail := Text.utf8 "\r\n"
    let x := first ++ lines.flatMap (· ++ [lineFeed]) ++ tail
    ({} : Limits).NoWrap ∧ FirstLine {} first ∧ List.Forall₂ (Header.Line {}) lines fields ∧
      NoHeaderLine {} tail ∧
      (({} : Parser).parseAll (.blank 1) ([30, 5].map x.take ++ [x])).1.result =
        .error .headersFull := by
  intro first lines fields tail x
  have hmethod : MethodPart {} (Text.utf8 "PLAY") :=
    ⟨[], Text.utf8 "PLAY", .play, rfl, List.forall_mem_nil _,
      @Method.Names.registered .play (by decide), by decide⟩
  have htarget : TargetPart {} (Text.utf8 "PLAY *") :=
    ⟨Text.utf8 "PLAY", Text.utf8 " ", Text.utf8 "*", by decide, hmethod, by decide,
      by decide +kernel, by decide, by decide +kernel, by decide⟩
  have hfirst : FirstLine {} first :=
    ⟨Text.utf8 "PLAY *", Text.utf8 " ", Text.utf8 "RTSP/1.0\r", by decide, htarget, by decide,
      by decide +kernel, by decide, ⟨by decide, by decide, [], by decide, List.forall_mem_nil _⟩⟩
  have hlines : List.Forall₂ (Header.Line {}) lines fields :=
    .cons ⟨by decide, by decide, Header.ofLine_eq_ok_iff.1 (by decide)⟩ <|
    .cons ⟨by decide, by decide, Header.ofLine_eq_ok_iff.1 (by decide)⟩ <|
    .cons ⟨by decide, by decide, Header.ofLine_eq_ok_iff.1 (by decide)⟩ .nil
  have htail : NoHeaderLine {} tail := noHeaderLine_of_blank (.inr rfl) []
  have hfull := parseAll_headersFull_iff (by decide) hfirst hlines htail (.blank 1) [30, 5]
  exact ⟨by decide, hfirst, hlines, htail, hfull.1.2 (by decide)⟩

end Block

end Parser

end RealTimeStreaming
