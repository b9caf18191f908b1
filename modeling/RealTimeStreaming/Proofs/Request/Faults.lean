import Mathlib.Data.List.Forall2
import RealTimeStreaming.Proofs.Request.Acceptance

/-! Where a request fails. Up to its first fault it reads as any other: a part of the first line,
or all of it with header lines behind. The fields of these lines are what the headers hold when
the parser gives up, so neither an earlier request nor what stands behind the fault has a part in
them. -/

namespace RealTimeStreaming

open Octet

/-! ### What stands in front of a fault -/

/-- A first line up to the end of its method. -/
def MethodPart (limits : Limits) (bytes : Bytes) : Prop :=
  ∃ lead token m, bytes = lead ++ token ∧ (∀ b ∈ lead, isSeparator b) ∧ Method.Names token m ∧
    lead.length + token.length ≤ limits.method.toNat

/-- A first line up to the end of its target. -/
def TargetPart (limits : Limits) (bytes : Bytes) : Prop :=
  ∃ start gap token, bytes = start ++ (gap ++ token) ∧ MethodPart limits start ∧ gap ≠ [] ∧
    (∀ b ∈ gap, isSpace b) ∧ token ≠ [] ∧ (∀ b ∈ token, isGraphic b) ∧
    gap.length + token.length ≤ limits.uri.toNat

/-- A whole first line. -/
def FirstLine (limits : Limits) (bytes : Bytes) : Prop :=
  ∃ start space version, bytes = start ++ (space ++ version ++ [lineFeed]) ∧
    TargetPart limits start ∧ space ≠ [] ∧ (∀ b ∈ space, isSpace b) ∧
    space.length ≤ Limits.versionLine.toNat ∧ Version.Line version

/-- A first line and header lines that spell the fields, one each. -/
def HeadPart (limits : Limits) (fields : List Header) (bytes : Bytes) : Prop :=
  ∃ first lines, bytes = first ++ lines.flatMap (· ++ [lineFeed]) ∧ FirstLine limits first ∧
    List.Forall₂ (Header.Line limits) lines fields

/-- A first line, header lines and the empty line, and what follows. -/
def WholeHead (limits : Limits) (fields : List Header) (bytes : Bytes) : Prop :=
  ∃ head last rest, bytes = head ++ (last ++ lineFeed :: rest) ∧ HeadPart limits fields head ∧
    (last = [] ∨ last = [carriageReturn])

/-- The bytes start like a request and fail with the error, once the header lines of the fields
have been read. -/
inductive Fault (limits : Limits) (capacity : Nat) : List Header → Bytes → ParseError → Prop
  | method {bytes : Bytes} {e : ParseError} (h : Method.read limits bytes = .failed e) :
    Fault limits capacity [] bytes e
  | target {start rest : Bytes} {e : ParseError} (hstart : MethodPart limits start)
    (h : readTarget limits rest = .failed e) : Fault limits capacity [] (start ++ rest) e
  | version {start rest : Bytes} {e : ParseError} (hstart : TargetPart limits start)
    (h : Version.read rest = .failed e) : Fault limits capacity [] (start ++ rest) e
  | line {fields : List Header} {head rest : Bytes} {e : ParseError}
    (hhead : HeadPart limits fields head)
    (h : HeaderMap.readLine limits ⟨capacity, collect fields⟩ rest = .failed e) :
    Fault limits capacity fields (head ++ rest) e
  | noSequence {fields : List Header} {bytes : Bytes} (hhead : WholeHead limits fields bytes)
    (h : lastValue? "CSeq" fields = none) : Fault limits capacity fields bytes .missingCSeq
  | badSequence {fields : List Header} {bytes : Bytes} {text : String}
    (hhead : WholeHead limits fields bytes) (h : lastValue? "CSeq" fields = some text)
    (hnot : ∀ n : UInt32, ¬ Text.Decimal text.toList n.toNat) :
    Fault limits capacity fields bytes (.kindMismatch .integer text)
  | badLength {fields : List Header} {bytes : Bytes} {text : String}
    (hhead : WholeHead limits fields bytes) (h : lastValue? "Content-Length" fields = some text)
    (hnot : ∀ n ≤ limits.body.toNat, ¬ Text.Decimal text.toList n) :
    Fault limits capacity fields bytes (.contentLength text)

theorem HeadPart.snoc {limits : Limits} {fields : List Header} {bytes line : Bytes} {f : Header}
    (h : HeadPart limits fields bytes) (hline : Header.Line limits line f) :
    HeadPart limits (fields ++ [f]) (bytes ++ (line ++ [lineFeed])) := by
  obtain ⟨first, lines, rfl, hfirst, hlines⟩ := h
  exact ⟨first, lines ++ [line], by simp, hfirst, List.rel_append hlines (.cons hline .nil)⟩

/-! ### Fields on their lines -/

/-- A header value is part of one line. -/
theorem Header.Line.lineFeed_notMem {limits : Limits} {line : Bytes} {f : Header}
    (h : Header.Line limits line f) : lineFeed ∉ Text.utf8 f.value := by
  obtain ⟨t, hbytes, ht⟩ := h.spells
  rw [ht.value_eq]
  intro hm
  apply h.no_lineFeed
  apply (withoutReturn_isPrefix line).subset
  rw [← hbytes, FieldText.bytes]
  simp [hm]

theorem HeadPart.lineFeed_notMem {limits : Limits} {fields : List Header} {bytes : Bytes}
    (h : HeadPart limits fields bytes) {f : Header} (hf : f ∈ fields) :
    lineFeed ∉ Text.utf8 f.value := by
  obtain ⟨first, lines, -, -, hlines⟩ := h
  induction hlines with
  | nil => cases hf
  | @cons line h lines fields hline _ ih =>
    rcases List.mem_cons.1 hf with rfl | hf
    · exact hline.lineFeed_notMem
    · exact ih hf

theorem Fault.lineFeed_notMem {limits : Limits} {capacity : Nat} {fields : List Header}
    {bytes : Bytes} {e : ParseError} (h : Fault limits capacity fields bytes e) {f : Header}
    (hf : f ∈ fields) : lineFeed ∉ Text.utf8 f.value := by
  cases h with
  | method => cases hf
  | target => cases hf
  | version => cases hf
  | line hhead => exact hhead.lineFeed_notMem hf
  | noSequence hhead =>
    obtain ⟨_, _, _, -, hhead, -⟩ := hhead
    exact hhead.lineFeed_notMem hf
  | badSequence hhead =>
    obtain ⟨_, _, _, -, hhead, -⟩ := hhead
    exact hhead.lineFeed_notMem hf
  | badLength hhead =>
    obtain ⟨_, _, _, -, hhead, -⟩ := hhead
    exact hhead.lineFeed_notMem hf

/-! ### What the headers do not say -/

namespace Request

theorem sequence_eq_error {r : Request} {e : ParseError} (h : r.sequence = .error e) :
    (r.header? "CSeq" = none ∧ e = .missingCSeq) ∨
      ∃ text, r.header? "CSeq" = some text ∧ e = .kindMismatch .integer text ∧
        ∀ n : UInt32, ¬ Text.Decimal text.toList n.toNat := by
  unfold sequence at h
  split at h
  · rename_i hnone
    cases h
    exact .inl ⟨hnone, rfl⟩
  · rename_i text htext
    split at h
    · cases h
    · rename_i hread
      cases h
      refine .inr ⟨text, htext, rfl, fun n hn => ?_⟩
      rw [Text.readUInt32_eq_ok_iff.2 hn] at hread
      cases hread

theorem announcedLength_eq_error {limits : Limits} {r : Request} {e : ParseError}
    (h : r.announcedLength limits = .error e) :
    ∃ text, r.header? "Content-Length" = some text ∧ e = .contentLength text ∧
      ∀ n ≤ limits.body.toNat, ¬ Text.Decimal text.toList n := by
  have hnot {text : String} (htext : r.header? "Content-Length" = some text) (n : Nat)
      (hn : n ≤ limits.body.toNat) : ¬ Text.Decimal text.toList n := by
    intro hdecimal
    rw [announcedLength_eq_ok_iff.2 (.inr ⟨text, htext, hdecimal, hn⟩)] at h
    cases h
  cases htext : r.header? "Content-Length" with
  | none =>
    simp only [announcedLength, htext] at h
    cases h
  | some text =>
    refine ⟨text, rfl, ?_, hnot htext⟩
    simp only [announcedLength, htext, contentLength] at h
    split at h
    · split at h
      · cases h
      · cases h
        rfl
    · cases h
      rfl

end Request

namespace Parser

variable {p q : Parser} {r s : Request} {w consumed : Bytes} {n capacity : Nat} {e : ParseError}

theorem endHeaders_eq_failed {k : Nat} (h : p.endHeaders r k = (s, .failed e)) :
    s.headers = r.headers ∧ (r.sequence = .error e ∨ r.announcedLength p.limits = .error e) := by
  simp only [endHeaders] at h
  split at h
  · rename_i hsequence
    cases h
    exact ⟨rfl, .inl hsequence⟩
  · split at h
    · rename_i hlength
      cases h
      exact ⟨rfl, .inr hlength⟩
    · cases h

/-! ### Up to the fault -/

/-- What stands behind the parser when it comes to an element, and what the headers hold. The
separator that ends a token is the first byte that has not been consumed. In front of a body the
empty line has been read, and the length is one that the limits allow. -/
def Behind (p : Parser) (r : Request) (capacity : Nat) (consumed rest : Bytes) : Prop :=
  match p.stage with
  | .method => consumed = [] ∧ r.headers.capacity = capacity
  | .target => r.headers = .empty capacity ∧ MethodPart p.limits consumed ∧
      ∃ sep more, rest = sep :: more ∧ isSeparator sep
  | .version => r.headers = .empty capacity ∧ TargetPart p.limits consumed ∧
      ∃ sep more, rest = sep :: more ∧ isSeparator sep
  | .headers => ∃ fields, r.headers = ⟨capacity, collect fields⟩ ∧
      (distinct fields).length ≤ capacity ∧ HeadPart p.limits fields consumed
  | .body => ∃ fields head last, consumed = head ++ (last ++ [lineFeed]) ∧
      HeadPart p.limits fields head ∧ (distinct fields).length ≤ capacity ∧ last.length ≤ 1 ∧
      p.bodyLength ≤ p.limits.body.toNat
  | .done => True
  | .failed _ => False

/-- What comes behind a separator and does not start with one has blanks in front of it. -/
theorem ne_nil_of_separator {gap token more rest : Bytes} {b sep : UInt8}
    (hb : token.head? = some b) (hgraphic : isSeparator b = false) (hsep : isSeparator sep)
    (h : sep :: more = gap ++ token ++ rest) : gap ≠ [] := by
  rintro rfl
  obtain ⟨tail, rfl⟩ := List.head?_eq_some_iff.1 hb
  rw [List.nil_append, List.cons_append, List.cons.injEq] at h
  rw [← h.1, hsep] at hgraphic
  cases hgraphic

theorem Behind.read_method (hp : p.stage = .method) (h : p.Behind r capacity consumed w)
    {m : Method} (hread : Method.read p.limits w = .complete m n) :
    Behind { p with stage := .target } { r.clear with method := m } capacity
      (consumed ++ w.take n) (w.drop n) := by
  simp only [Behind, hp] at h
  obtain ⟨rfl, rfl⟩ := h
  obtain ⟨lead, token, sep, rest, rfl, hlead, hm, hsep, rfl, hle⟩ :=
    Method.read_eq_complete_iff.1 hread
  have hlength : (lead ++ token).length = lead.length + token.length := List.length_append
  rw [List.nil_append, List.take_left' hlength, List.drop_left' hlength]
  exact ⟨rfl, ⟨lead, token, m, rfl, hlead, hm, hle⟩, sep, rest, rfl, hsep⟩

theorem Behind.read_target (hp : p.stage = .target) (h : p.Behind r capacity consumed w)
    {uri : String} (hread : readTarget p.limits w = .complete uri n) :
    Behind { p with stage := .version } { r with uri } capacity (consumed ++ w.take n)
      (w.drop n) := by
  simp only [Behind, hp] at h
  obtain ⟨hheaders, hmethod, sep, more, hw, hsep⟩ := h
  obtain ⟨gap, token, next, rest, hbytes, hgap, hne, hg, -, hnext, rfl, hle⟩ :=
    readTarget_eq_complete_iff.1 hread
  obtain ⟨b, tail, htoken⟩ := List.exists_cons_of_ne_nil hne
  have hgraphic : isSeparator b = false :=
    not_isSeparator_of_isGraphic (hg b (by rw [htoken]; exact List.mem_cons_self))
  have hgapne : gap ≠ [] :=
    ne_nil_of_separator (by rw [htoken]; rfl) hgraphic hsep (hw.symm.trans hbytes)
  have hlength : (gap ++ token).length = gap.length + token.length := List.length_append
  rw [hbytes, List.take_left' hlength, List.drop_left' hlength]
  exact ⟨hheaders, ⟨consumed, gap, token, rfl, hmethod, hgapne, hgap, hne, hg, hle⟩, next, rest,
    rfl, hnext⟩

theorem Behind.read_version (hp : p.stage = .version) (h : p.Behind r capacity consumed w)
    {v : Version} (hread : Version.read w = .complete v n) :
    Behind { p with stage := .headers } { r with version := v } capacity (consumed ++ w.take n)
      (w.drop n) := by
  simp only [Behind, hp] at h
  obtain ⟨hheaders, htarget, sep, more, hw, hsep⟩ := h
  obtain ⟨space, content, rest, hbytes, hspace, hle, hline, rfl⟩ :=
    Version.read_eq_complete_iff.1 hread
  have hne : space ≠ [] :=
    ne_nil_of_separator hline.head? (by decide) hsep (hw.symm.trans hbytes)
  have hsplit : w = space ++ content ++ [lineFeed] ++ rest := by
    rw [hbytes, List.append_assoc _ [lineFeed] rest]
    rfl
  have hlength : (space ++ content ++ [lineFeed]).length =
      space.length + (content.length + 1) := by
    simp
  rw [hsplit, List.take_left' hlength]
  refine ⟨[], hheaders, Nat.zero_le _, _, [], (List.append_nil _).symm, ?_, .nil⟩
  exact ⟨consumed, space, content, rfl, htarget, hne, hspace, hle, hline⟩

theorem Behind.read_line (hp : p.stage = .headers) (h : p.Behind r capacity consumed w)
    {headers : HeaderMap}
    (hread : r.headers.readLine p.limits w = .complete (.stored headers) n) :
    p.Behind { r with headers } capacity (consumed ++ w.take n) (w.drop n) := by
  simp only [Behind, hp] at h
  obtain ⟨fields, hr, hfit, hhead⟩ := h
  rw [hr, HeaderMap.readLine_eq_stored_iff hfit] at hread
  obtain ⟨line, f, rest, rfl, hline, hroom, rfl, rfl⟩ := hread
  simp only [Behind, hp, take_line]
  exact ⟨fields ++ [f], rfl, hroom, hhead.snoc hline⟩

/-- The empty line ends the head. -/
theorem Behind.read_blank (hp : p.stage = .headers) (h : p.Behind r capacity consumed w)
    {cseq : UInt32} {length : Nat} (hread : r.headers.readLine p.limits w = .complete .blank n)
    (hlength : r.announcedLength p.limits = .ok length) :
    Behind { p with stage := .body, bodyLength := length } { r with cseq } capacity
      (consumed ++ w.take n) (w.drop n) := by
  simp only [Behind, hp] at h
  obtain ⟨fields, -, hfit, hhead⟩ := h
  obtain ⟨last, rest, rfl, hlast, rfl⟩ := HeaderMap.readLine_eq_blank_iff.1 hread
  have hbody : length ≤ p.limits.body.toNat := by
    rcases Request.announcedLength_eq_ok_iff.1 hlength with ⟨-, rfl⟩ | ⟨_, -, -, hle⟩
    · exact Nat.zero_le _
    · exact hle
  have hshort : last.length ≤ 1 := by
    rcases hlast with rfl | rfl <;> simp
  simp only [Behind, take_line]
  exact ⟨fields, consumed, last, rfl, hhead, hfit, hshort, hbody⟩

theorem Behind.step (h : p.Behind r capacity consumed w)
    (hs : p.step r w = (s, .complete q n)) :
    q.Behind s capacity (consumed ++ w.take n) (w.drop n) := by
  cases advances_of_step hs with
  | method hp hread => exact h.read_method hp hread
  | target hp hread => exact h.read_target hp hread
  | version hp hread => exact h.read_version hp hread
  | line hp hread => exact h.read_line hp hread
  | blank hp hread _ hlength => exact h.read_blank hp hread hlength
  | body => trivial

theorem Behind.held (h : p.Behind r capacity consumed w) :
    p.Behind (p.held r) capacity consumed w := by
  by_cases hp : p.stage = .method
  · rw [held_of_method hp]
    simp only [Behind, hp] at h ⊢
    exact h
  · rwa [held_of_ne_method hp]

/-- A run that does not fail leaves all that it has read behind it. -/
theorem Behind.run_of_open (h : p.Behind r capacity consumed w)
    (ho : ∀ e, (p.run r w).1.stage ≠ .failed e) :
    (p.run r w).1.Behind (p.run r w).2 capacity
      (consumed ++ w.take ((p.run r w).1.offset - p.offset))
      (w.drop ((p.run r w).1.offset - p.offset)) := by
  fun_induction Parser.run p r w generalizing consumed with
  | case1 p r w s hs =>
    rw [Nat.sub_self, List.take_zero, List.append_nil, List.drop_zero, ← held_eq_of_step hs]
    exact h.held
  | case2 p r w s e hs => exact absurd rfl (ho e)
  | case3 p r w s q n hs ih =>
    have hle := offset_le_run { q with offset := p.offset + n } s (w.drop n)
    have hstep : q.Behind s capacity (consumed ++ w.take n) (w.drop n) := h.step hs
    have hq := ih hstep ho
    simp only at hle hq
    rw [List.append_assoc, ← List.take_add, List.drop_drop] at hq
    rwa [show (Parser.run { q with offset := p.offset + n } s (w.drop n)).1.offset - p.offset =
      n + ((Parser.run { q with offset := p.offset + n } s (w.drop n)).1.offset - (p.offset + n))
      by omega]

/-- A step that fails leaves the fields of the lines that stand behind it. -/
theorem Behind.fault_of_headers (hp : p.stage = .headers) (h : p.Behind r capacity consumed w)
    (hs : p.step r w = (s, .failed e)) :
    ∃ fields, s.headers = ⟨capacity, collect fields⟩ ∧
      Fault p.limits capacity fields (consumed ++ w) e := by
  simp only [Behind, hp] at h
  obtain ⟨fields, hr, hfit, hhead⟩ := h
  have hget (name : String) : r.header? name = lastValue? name fields := by
    rw [Request.header?, hr, get?_collect]
  simp only [Parser.step, hp] at hs
  split at hs
  · cases hs
  · rename_i e hread
    cases hs
    rw [hr] at hread
    exact ⟨fields, hr, .line hhead hread⟩
  · cases hs
  · rename_i k hread
    obtain ⟨last, rest, rfl, hlast, -⟩ := HeaderMap.readLine_eq_blank_iff.1 hread
    have hwhole : WholeHead p.limits fields (consumed ++ (last ++ lineFeed :: rest)) :=
      ⟨consumed, last, rest, rfl, hhead, hlast⟩
    obtain ⟨hheaders, hsequence | hlength⟩ := endHeaders_eq_failed hs
    · refine ⟨fields, hheaders.trans hr, ?_⟩
      obtain ⟨hnone, rfl⟩ | ⟨text, htext, rfl, hnot⟩ := Request.sequence_eq_error hsequence
      · exact .noSequence hwhole ((hget _).symm.trans hnone)
      · exact .badSequence hwhole ((hget _).symm.trans htext) hnot
    · obtain ⟨text, htext, rfl, hnot⟩ := Request.announcedLength_eq_error hlength
      exact ⟨fields, hheaders.trans hr, .badLength hwhole ((hget _).symm.trans htext) hnot⟩

theorem Behind.fault (h : p.Behind r capacity consumed w) (hs : p.step r w = (s, .failed e)) :
    ∃ fields, s.headers = ⟨capacity, collect fields⟩ ∧
      Fault p.limits capacity fields (consumed ++ w) e := by
  cases hp : p.stage with
  | method =>
    simp only [Behind, hp] at h
    obtain ⟨rfl, rfl⟩ := h
    simp only [Parser.step, hp] at hs
    obtain ⟨hread, rfl⟩ := store_eq_failed_iff.1 hs
    rw [List.nil_append]
    exact ⟨[], rfl, .method hread⟩
  | target =>
    simp only [Behind, hp] at h
    simp only [Parser.step, hp] at hs
    obtain ⟨hread, rfl⟩ := store_eq_failed_iff.1 hs
    exact ⟨[], h.1, .target h.2.1 hread⟩
  | version =>
    simp only [Behind, hp] at h
    simp only [Parser.step, hp] at hs
    obtain ⟨hread, rfl⟩ := store_eq_failed_iff.1 hs
    exact ⟨[], h.1, .version h.2.1 hread⟩
  | headers => exact h.fault_of_headers hp hs
  | body =>
    simp only [Parser.step, hp] at hs
    split at hs <;> cases hs
  | done => simp [Parser.step, hp] at hs
  | failed e => simp [Parser.step, hp] at hs

/-- The fault of a run stands behind all that the run has read before it. -/
theorem Behind.run (h : p.Behind r capacity consumed w) (hf : (p.run r w).1.stage = .failed e) :
    ∃ fields, (p.run r w).2.headers = ⟨capacity, collect fields⟩ ∧
      Fault p.limits capacity fields (consumed ++ w) e := by
  fun_induction Parser.run p r w generalizing consumed with
  | case1 p r w s hs =>
    simp only [Behind, show p.stage = .failed e from hf] at h
  | case2 p r w s e' hs =>
    cases hf
    exact h.fault hs
  | case3 p r w s q n hs ih =>
    have hq : q.Behind s capacity (consumed ++ w.take n) (w.drop n) := h.step hs
    obtain ⟨fields, hheaders, hfault⟩ := ih hq hf
    rw [List.append_assoc, List.take_append_drop] at hfault
    rw [← limits_of_step hs]
    exact ⟨fields, hheaders, hfault⟩

/-- A new parser that fails has found a fault in the bytes, and the headers hold the fields in
front of it and no others. -/
theorem fault_of_parse {limits : Limits} {x : Bytes}
    (h : (({ limits } : Parser).parse (.blank capacity) x).1.stage = .failed e) :
    ∃ fields, (({ limits } : Parser).parse (.blank capacity) x).2.headers =
        ⟨capacity, collect fields⟩ ∧ Fault limits capacity fields x e := by
  have hnew : Behind { limits } (.blank capacity) capacity [] x := ⟨rfl, rfl⟩
  exact hnew.run h

end Parser

end RealTimeStreaming
