import RealTimeStreaming.Proofs.Request.Fields
import RealTimeStreaming.Proofs.Text.Parts
import RealTimeStreaming.Request.Element

/-! The grammar of requests, apart from any reader: the parts that a request is written in,
what they denote, and how long they may be. Beside each part stands the statement that its
reader completes on exactly the texts of that part. -/

namespace RealTimeStreaming

open Octet

/-! ### Tokens and lines -/

theorem isSeparator_of_isSpace {b : UInt8} (h : isSpace b) : isSeparator b := by
  simp [isSeparator, h]

theorem not_isSeparator_of_isGraphic {b : UInt8} (h : isGraphic b) : isSeparator b = false := by
  have hb := not_isBlank_of_isGraphic h
  simp only [isBlank, Bool.or_eq_false_iff] at hb
  exact hb.1

/-- A token is cut off where a separator stands behind it. -/
theorem scanToken_eq_complete_iff {kind : TokenKind} {limit : UInt64} {lead : UInt8 → Bool}
    {input token : Bytes} {n : Nat} (hlead : ∀ b, lead b → isSeparator b) (ht : token ≠ []) :
    scanToken kind limit lead input = .complete token n ↔
      ∃ before sep rest, input = before ++ token ++ sep :: rest ∧ (∀ b ∈ before, lead b) ∧
        (∀ b ∈ token, isSeparator b = false) ∧ isSeparator sep ∧
        n = before.length + token.length ∧ n ≤ limit.toNat := by
  constructor
  · intro h
    simp only [scanToken] at h
    split at h
    · split at h <;> cases h
    · rename_i he
      split at h
      · cases h
      · rename_i hle
        cases h
        obtain ⟨sep, rest, hs⟩ := List.exists_cons_of_ne_nil (mt List.isEmpty_iff.2 he)
        refine ⟨input.takeWhile lead, sep, rest, ?_, fun b => Text.of_mem_takeWhile, ?_, ?_, rfl,
          Nat.le_of_not_lt hle⟩
        · rw [List.append_assoc, ← hs, List.takeWhile_append_dropWhile,
            List.takeWhile_append_dropWhile]
        · intro b hb
          simpa using Text.of_mem_takeWhile hb
        · have hb := Text.of_mem_head?_dropWhile (a := sep) (by rw [hs]; rfl)
          simpa using hb
  · rintro ⟨before, sep, rest, rfl, hb, htok, hsep, rfl, hle⟩
    have hstart : ∀ b ∈ (token ++ sep :: rest).head?, lead b = false := by
      obtain ⟨b, tail, rfl⟩ := List.exists_cons_of_ne_nil ht
      have hn : lead b = false := by
        rw [← Bool.not_eq_true]
        intro hl
        simpa [htok b (by simp)] using hlead b hl
      simpa using hn
    have htok' : ∀ b ∈ token, (!isSeparator b) = true := by
      intro b hm
      rw [htok b hm, Bool.not_false]
    have hend : ∀ b ∈ (sep :: rest).head?, (!isSeparator b) = false := by
      simpa using hsep
    rw [List.append_assoc]
    simp only [scanToken]
    rw [Text.takeWhile_run hb hstart, Text.dropWhile_run hb hstart, Text.takeWhile_run htok' hend,
      Text.dropWhile_run htok' hend, if_neg (by simp), if_neg (by omega)]

theorem withoutReturn_isPrefix (line : Bytes) : withoutReturn line <+: line := by
  unfold withoutReturn
  split
  · exact List.dropLast_prefix line
  · exact List.prefix_rfl

theorem withoutReturn_eq_nil_iff {line : Bytes} :
    withoutReturn line = [] ↔ line = [] ∨ line = [carriageReturn] := by
  unfold withoutReturn
  split
  · rename_i h
    constructor
    · intro hd
      obtain ⟨init, rfl⟩ := List.getLast?_eq_some_iff.1 h
      rw [List.dropLast_concat] at hd
      exact .inr (by rw [hd]; rfl)
    · rintro (rfl | rfl) <;> rfl
  · rename_i h
    constructor
    · exact .inl
    · rintro (rfl | rfl)
      · rfl
      · exact absurd rfl h

/-- A line is cut off at the first line feed. -/
theorem scanLine_eq_complete_iff {kind : TokenKind} {limit : UInt64} {input line : Bytes}
    {n : Nat} :
    scanLine kind limit input = .complete line n ↔
      ∃ content rest, input = content ++ lineFeed :: rest ∧ lineFeed ∉ content ∧
        line = withoutReturn content ∧ line.length ≤ limit.toNat ∧ n = content.length + 1 := by
  constructor
  · intro h
    simp only [scanLine] at h
    split at h
    · split at h <;> cases h
    · rename_i he
      split at h
      · cases h
      · rename_i hle
        cases h
        obtain ⟨b, rest, hb⟩ := List.exists_cons_of_ne_nil (mt List.isEmpty_iff.2 he)
        have hlf := Text.of_mem_head?_dropWhile (a := b) (by rw [hb]; rfl)
        have hlf' : b = lineFeed := by simpa using hlf
        subst hlf'
        refine ⟨input.takeWhile (· != lineFeed), rest, ?_, ?_, rfl, Nat.le_of_not_lt hle, rfl⟩
        · rw [← hb, List.takeWhile_append_dropWhile]
        · intro hm
          simpa using Text.of_mem_takeWhile hm
  · rintro ⟨content, rest, rfl, hlf, rfl, hle, rfl⟩
    have hc : ∀ b ∈ content, (b != lineFeed) = true := by
      intro b hb
      rw [bne_iff_ne]
      rintro rfl
      exact hlf hb
    have hend : ∀ b ∈ (lineFeed :: rest).head?, (b != lineFeed) = false := by simp
    simp only [scanLine]
    rw [Text.takeWhile_run hc hend, Text.dropWhile_run hc hend, if_neg (by simp),
      if_neg (by omega)]

theorem take_line (line rest : Bytes) :
    (line ++ lineFeed :: rest).take (line.length + 1) = line ++ [lineFeed] := by
  rw [List.append_cons, List.take_left' (by simp)]

theorem drop_line (line rest : Bytes) :
    (line ++ lineFeed :: rest).drop (line.length + 1) = rest := by
  simp

/-! ### Methods -/

/-- The tokens that name a method: the registered spellings, and any other alphanumeric
token for an extension. -/
inductive Method.Names : Bytes → Method → Prop
  | registered {m : Method} (h : m ∈ registered) : Names (Text.utf8 m.name) m
  | extension {token : Bytes} (hne : token ≠ []) (h : ∀ b ∈ token, isAlphanumeric b)
      (hn : ∀ m ∈ registered, Text.utf8 m.name ≠ token) :
      Names token (.extension (Text.ofAscii token))

theorem Method.ofToken_eq_ok_iff {token : Bytes} {m : Method} :
    ofToken token = .ok m ↔ Names token m := by
  constructor
  · intro h
    unfold ofToken at h
    split at h
    · rename_i hf
      cases h
      have ht := List.find?_some hf
      rw [beq_iff_eq] at ht
      exact ht ▸ .registered (List.mem_of_find?_eq_some hf)
    · rename_i hf
      split at h
      · rename_i hc
        cases h
        simp only [Bool.and_eq_true, Bool.not_eq_true', List.isEmpty_eq_false_iff,
          List.all_eq_true] at hc
        refine .extension hc.1 hc.2 ?_
        intro m hm
        simpa using List.find?_eq_none.1 hf m hm
      · cases h
  · rintro (hm | ⟨hne, hc, hn⟩)
    · exact ofToken_name hm
    · have hf : (registered.find? fun m => Text.utf8 m.name == token) = none := by
        rw [List.find?_eq_none]
        intro m hm
        simpa using hn m hm
      have hc' : (!token.isEmpty && token.all isAlphanumeric) = true := by
        simpa using ⟨hne, hc⟩
      rw [ofToken, hf]
      exact if_pos hc'

theorem Method.Names.ne_nil {token : Bytes} {m : Method} (h : Names token m) : token ≠ [] := by
  cases h with
  | registered hm =>
    revert m
    decide
  | extension hne => exact hne

theorem Method.Names.not_isSeparator {token : Bytes} {m : Method} (h : Names token m) :
    ∀ b ∈ token, isSeparator b = false := by
  cases h with
  | registered hm =>
    have hall : Method.registered.all fun m => (Text.utf8 m.name).all (!isSeparator ·) := by rfl
    intro b hb
    simpa using List.all_eq_true.1 (List.all_eq_true.1 hall m hm) b hb
  | extension hne hc =>
    intro b hb
    exact not_isSeparator_of_isGraphic (isGraphic_of_isAlphanumeric (hc b hb))

theorem Method.read_eq_complete_iff {limits : Limits} {input : Bytes} {m : Method} {n : Nat} :
    Method.read limits input = .complete m n ↔
      ∃ lead token sep rest, input = lead ++ token ++ sep :: rest ∧
        (∀ b ∈ lead, isSeparator b) ∧ Names token m ∧ isSeparator sep ∧
        n = lead.length + token.length ∧ n ≤ limits.method.toNat := by
  rw [Method.read, Reading.check_eq_complete]
  constructor
  · rintro ⟨token, hs, hm⟩
    rw [ofToken_eq_ok_iff] at hm
    rw [scanToken_eq_complete_iff (fun _ h => h) hm.ne_nil] at hs
    obtain ⟨lead, sep, rest, hi, hl, -, hsep, hn, hle⟩ := hs
    exact ⟨lead, token, sep, rest, hi, hl, hm, hsep, hn, hle⟩
  · rintro ⟨lead, token, sep, rest, hi, hl, hm, hsep, hn, hle⟩
    refine ⟨token, ?_, ofToken_eq_ok_iff.2 hm⟩
    rw [scanToken_eq_complete_iff (fun _ h => h) hm.ne_nil]
    exact ⟨lead, sep, rest, hi, hl, hm.not_isSeparator, hsep, hn, hle⟩

/-! ### Targets and versions -/

theorem targetOfToken_eq_ok_iff {token : Bytes} {uri : String} :
    targetOfToken token = .ok uri ↔
      token ≠ [] ∧ (∀ b ∈ token, isGraphic b) ∧ uri = Text.ofAscii token := by
  unfold targetOfToken
  split
  · rename_i h
    simp only [Bool.and_eq_true, Bool.not_eq_true', List.isEmpty_eq_false_iff,
      List.all_eq_true] at h
    rw [Except.ok.injEq]
    exact ⟨fun hu => ⟨h.1, h.2, hu.symm⟩, fun hu => hu.2.2.symm⟩
  · rename_i h
    simp only [reduceCtorEq, false_iff, not_and]
    intro hne hg
    exact absurd (by simpa using ⟨hne, hg⟩) h

theorem readTarget_eq_complete_iff {limits : Limits} {input : Bytes} {uri : String} {n : Nat} :
    readTarget limits input = .complete uri n ↔
      ∃ gap token sep rest, input = gap ++ token ++ sep :: rest ∧ (∀ b ∈ gap, isSpace b) ∧
        token ≠ [] ∧ (∀ b ∈ token, isGraphic b) ∧ uri = Text.ofAscii token ∧ isSeparator sep ∧
        n = gap.length + token.length ∧ n ≤ limits.uri.toNat := by
  have hlead : ∀ b, isSpace b → isSeparator b := fun _ => isSeparator_of_isSpace
  rw [readTarget, Reading.check_eq_complete]
  constructor
  · rintro ⟨token, hs, hm⟩
    obtain ⟨hne, hg, hu⟩ := targetOfToken_eq_ok_iff.1 hm
    obtain ⟨gap, sep, rest, hi, hl, -, hsep, hn, hle⟩ :=
      (scanToken_eq_complete_iff hlead hne).1 hs
    exact ⟨gap, token, sep, rest, hi, hl, hne, hg, hu, hsep, hn, hle⟩
  · rintro ⟨gap, token, sep, rest, hi, hl, hne, hg, hu, hsep, hn, hle⟩
    refine ⟨token, (scanToken_eq_complete_iff hlead hne).2 ?_,
      targetOfToken_eq_ok_iff.2 ⟨hne, hg, hu⟩⟩
    exact ⟨gap, sep, rest, hi, hl, fun b hb => not_isSeparator_of_isGraphic (hg b hb), hsep, hn,
      hle⟩

/-- A version line: the one version, blanks behind it. -/
structure Version.Line (content : Bytes) : Prop where
  no_lineFeed : lineFeed ∉ content
  fits : (withoutReturn content).length ≤ Limits.versionLine.toNat
  spells : ∃ blanks, withoutReturn content = Text.utf8 "RTSP/1.0" ++ blanks ∧
    ∀ b ∈ blanks, isBlank b

/-- The first byte of a version line is the first one of the version. -/
theorem Version.Line.head? {content : Bytes} (h : Version.Line content) :
    content.head? = some 0x52 := by
  obtain ⟨blanks, hb, -⟩ := h.spells
  obtain ⟨tail, ht⟩ := withoutReturn_isPrefix content
  rw [← ht, hb]
  rfl

theorem Version.ofLine_eq_ok_iff {line : Bytes} {v : Version} :
    ofLine line = .ok v ↔
      ∃ blanks, line = Text.utf8 "RTSP/1.0" ++ blanks ∧ ∀ b ∈ blanks, isBlank b := by
  have ht : Text.trimEnd isBlank line = Text.utf8 Version.rtsp10.name ↔
      ∃ blanks, line = Text.utf8 "RTSP/1.0" ++ blanks ∧ ∀ b ∈ blanks, isBlank b := by
    have hlast : ∀ b ∈ (Text.utf8 "RTSP/1.0").getLast?, isBlank b = false := by
      rintro b ⟨⟩
      rfl
    rw [Text.trimEnd_eq_iff]
    exact ⟨fun ⟨b, h⟩ => ⟨b, h.1, h.2.1⟩, fun ⟨b, h⟩ => ⟨b, h.1, h.2, hlast⟩⟩
  cases v
  rw [← ht]
  simp only [ofLine]
  split <;> simp_all

theorem Version.read_eq_complete_iff {input : Bytes} {v : Version} {n : Nat} :
    Version.read input = .complete v n ↔
      ∃ space content rest, input = space ++ content ++ lineFeed :: rest ∧
        (∀ b ∈ space, isSpace b) ∧ space.length ≤ Limits.versionLine.toNat ∧
        Version.Line content ∧ n = space.length + (content.length + 1) := by
  constructor
  · intro h
    simp only [Version.read] at h
    split at h
    · cases h
    · rename_i hle
      obtain ⟨m, hc, rfl⟩ := Reading.shift_eq_complete.1 h
      obtain ⟨line, hs, hv⟩ := Reading.check_eq_complete.1 hc
      obtain ⟨content, rest, hi, hlf, rfl, hfit, rfl⟩ := scanLine_eq_complete_iff.1 hs
      refine ⟨input.takeWhile isSpace, content, rest, ?_, fun b => Text.of_mem_takeWhile,
        Nat.le_of_not_lt hle, ⟨hlf, hfit, ofLine_eq_ok_iff.1 hv⟩, rfl⟩
      rw [List.append_assoc, ← hi, Text.drop_length_takeWhile, List.takeWhile_append_dropWhile]
  · rintro ⟨space, content, rest, rfl, hsp, hle, hv, rfl⟩
    have hstart : ∀ b ∈ (content ++ lineFeed :: rest).head?, isSpace b = false := by
      rw [List.head?_append, hv.head?]
      rintro b ⟨⟩
      decide
    rw [List.append_assoc]
    simp only [Version.read]
    rw [Text.takeWhile_run hsp hstart, if_neg (Nat.not_lt.2 hle), List.drop_left,
      Reading.shift_eq_complete]
    refine ⟨content.length + 1, ?_, rfl⟩
    rw [Reading.check_eq_complete]
    refine ⟨withoutReturn content, ?_, ofLine_eq_ok_iff.2 hv.spells⟩
    exact scanLine_eq_complete_iff.2 ⟨content, rest, rfl, hv.no_lineFeed, rfl, hv.fits, rfl⟩

/-! ### Header lines -/

/-- The parts of a header line: a name, a colon and a value, with blanks behind the name
and on both sides of the value. -/
structure FieldText where
  name : Bytes
  gap : Bytes
  lead : Bytes
  value : Bytes
  trail : Bytes

namespace FieldText

def bytes (t : FieldText) : Bytes :=
  t.name ++ t.gap ++ colon :: (t.lead ++ t.value ++ t.trail)

structure Denotes (t : FieldText) (h : Header) : Prop where
  name_ne : t.name ≠ []
  name_chars : ∀ b ∈ t.name, isNameChar b
  gap_blank : ∀ b ∈ t.gap, isBlank b
  lead_blank : ∀ b ∈ t.lead, isBlank b
  trail_blank : ∀ b ∈ t.trail, isBlank b
  value_start : ∀ b ∈ t.value.head?, isBlank b = false
  value_end : ∀ b ∈ t.value.getLast?, isBlank b = false
  name_eq : h.name = Text.ofAscii t.name
  value_eq : Text.utf8 h.value = t.value

/-- The colon that is written as such is the first one. -/
theorem Denotes.colon_notMem {t : FieldText} {h : Header} (ht : t.Denotes h) :
    colon ∉ t.name ++ t.gap := by
  intro hm
  rcases List.mem_append.1 hm with hm | hm
  · exact absurd (ht.name_chars _ hm) (by decide)
  · exact absurd (ht.gap_blank _ hm) (by decide)

end FieldText

/-- A line of the header block, without its line feed, that spells the header. -/
structure Header.Line (limits : Limits) (line : Bytes) (h : Header) : Prop where
  no_lineFeed : lineFeed ∉ line
  fits : (withoutReturn line).length ≤ limits.headerLine.toNat
  spells : ∃ t : FieldText, t.bytes = withoutReturn line ∧ t.Denotes h

theorem Header.ofLine_eq_ok_iff {line : Bytes} {h : Header} :
    ofLine line = .ok h ↔ ∃ t : FieldText, t.bytes = line ∧ t.Denotes h := by
  constructor
  · intro hr
    unfold ofLine at hr
    split at hr
    · cases hr
    · rename_i before after hc
      obtain ⟨rfl, -⟩ := Text.cutAt_eq_some hc
      obtain ⟨gap, hb, hgap, -⟩ := Text.trimEnd_eq_iff.1 (rfl : Text.trimEnd isBlank before = _)
      obtain ⟨lead, trail, ha, hlead, htrail, hstart, hend⟩ :=
        Text.trim_eq_iff.1 (rfl : Text.trim isBlank after = _)
      dsimp only at hr
      split at hr
      · rename_i hn
        split at hr
        · rename_i text hu
          cases hr
          simp only [Bool.and_eq_true, Bool.not_eq_true', List.isEmpty_eq_false_iff,
            List.all_eq_true] at hn
          refine ⟨⟨Text.trimEnd isBlank before, gap, lead, Text.trim isBlank after, trail⟩, ?_,
            hn.1, hn.2, hgap, hlead, htrail, hstart, hend, rfl, Text.utf8_of_ofUtf8? hu⟩
          rw [FieldText.bytes, ← hb, ← ha]
        · cases hr
      · cases hr
  · rintro ⟨t, rfl, ht⟩
    have hlast : ∀ b ∈ t.name.getLast?, isBlank b = false := by
      intro b hb
      exact not_isBlank_of_isGraphic
        (isGraphic_of_isNameChar (ht.name_chars b (List.mem_of_getLast? hb)))
    have hname : Text.trimEnd isBlank (t.name ++ t.gap) = t.name :=
      Text.trimEnd_append ht.gap_blank hlast
    have hvalue : Text.trim isBlank (t.lead ++ t.value ++ t.trail) = t.value :=
      Text.trim_eq_iff.2 ⟨t.lead, t.trail, rfl, ht.lead_blank, ht.trail_blank, ht.value_start,
        ht.value_end⟩
    have hc : (!t.name.isEmpty && t.name.all isNameChar) = true := by
      simpa using ⟨ht.name_ne, ht.name_chars⟩
    unfold ofLine
    rw [FieldText.bytes, Text.cutAt_append ht.colon_notMem]
    dsimp only
    rw [hname, hvalue, if_pos hc, ← ht.value_eq, Text.ofUtf8?_utf8, ← ht.name_eq]

theorem HeaderMap.readLine_eq_blank_iff {limits : Limits} {m : HeaderMap} {input : Bytes}
    {n : Nat} :
    m.readLine limits input = .complete .blank n ↔
      ∃ last rest, input = last ++ lineFeed :: rest ∧ (last = [] ∨ last = [carriageReturn]) ∧
        n = last.length + 1 := by
  have hs (line : Bytes) : m.storeLine line = .ok .blank ↔ line = [] := by
    unfold storeLine
    split
    · rename_i he
      simpa using he
    · rename_i he
      cases hh : Header.ofLine line with
      | error e => simpa [bind, Except.bind] using he
      | ok h =>
        cases hi : m.insert h.name h.value with
        | error e => simpa [bind, Except.bind, hi] using he
        | ok m => simpa [bind, Except.bind, hi, pure, Except.pure] using he
  rw [readLine, Reading.check_eq_complete]
  constructor
  · rintro ⟨line, hl, hb⟩
    obtain ⟨last, rest, hi, -, rfl, -, hn⟩ := scanLine_eq_complete_iff.1 hl
    exact ⟨last, rest, hi, withoutReturn_eq_nil_iff.1 ((hs _).1 hb), hn⟩
  · rintro ⟨last, rest, hi, hlast, hn⟩
    have hw := withoutReturn_eq_nil_iff.2 hlast
    refine ⟨[], scanLine_eq_complete_iff.2 ⟨last, rest, hi, ?_, hw.symm, Nat.zero_le _, hn⟩,
      (hs _).2 rfl⟩
    rcases hlast with rfl | rfl <;> decide

/-- A line is stored if it spells a header and there is room for its name. -/
theorem HeaderMap.readLine_eq_stored_iff {limits : Limits} {capacity : Nat}
    {fields : List Header} {m : HeaderMap} {input : Bytes} {n : Nat}
    (hfit : (distinct fields).length ≤ capacity) :
    HeaderMap.readLine limits ⟨capacity, collect fields⟩ input = .complete (.stored m) n ↔
      ∃ line h rest, input = line ++ lineFeed :: rest ∧ Header.Line limits line h ∧
        (distinct (fields ++ [h])).length ≤ capacity ∧ m = ⟨capacity, collect (fields ++ [h])⟩ ∧
        n = line.length + 1 := by
  have hs (line : Bytes) : HeaderMap.storeLine ⟨capacity, collect fields⟩ line = .ok (.stored m) ↔
      ∃ h, Header.ofLine line = .ok h ∧ (distinct (fields ++ [h])).length ≤ capacity ∧
        m = ⟨capacity, collect (fields ++ [h])⟩ := by
    unfold storeLine
    split
    · rename_i he
      rw [List.isEmpty_iff] at he
      subst he
      simp [Header.ofLine, Text.cutAt]
    · cases hh : Header.ofLine line with
      | error e => simp [bind, Except.bind]
      | ok h =>
        simp only [Except.ok.injEq, exists_eq_left', ← insert_collect_eq_ok_iff hfit]
        cases hi : HeaderMap.insert ⟨capacity, collect fields⟩ h.name h.value with
        | error e => simp [bind, Except.bind, hi]
        | ok res => simp [bind, Except.bind, hi, pure, Except.pure, Prod.ext_iff]
  rw [readLine, Reading.check_eq_complete]
  constructor
  · rintro ⟨_, hl, hb⟩
    obtain ⟨line, rest, hi, hlf, rfl, hle, hn⟩ := scanLine_eq_complete_iff.1 hl
    obtain ⟨h, hh, hroom, hm⟩ := (hs _).1 hb
    exact ⟨line, h, rest, hi, ⟨hlf, hle, Header.ofLine_eq_ok_iff.1 hh⟩, hroom, hm, hn⟩
  · rintro ⟨line, h, rest, hi, hline, hroom, hm, hn⟩
    exact ⟨withoutReturn line,
      scanLine_eq_complete_iff.2 ⟨line, rest, hi, hline.no_lineFeed, rfl, hline.fits, hn⟩,
      (hs _).2 ⟨h, Header.ofLine_eq_ok_iff.2 hline.spells, hroom, hm⟩⟩

/-! ### What the headers say about the request -/

namespace Request

theorem sequence_eq_ok_iff {r : Request} {n : UInt32} :
    r.sequence = .ok n ↔
      ∃ text, r.header? "CSeq" = some text ∧ Text.Decimal text.toList n.toNat := by
  cases hh : r.header? "CSeq" with
  | none => simp [sequence, hh]
  | some text =>
    simp only [sequence, hh, Option.some.injEq, exists_eq_left', ← Text.readUInt32_eq_ok_iff]
    cases Text.readUInt32 text.toList <;> simp

theorem announcedLength_eq_ok_iff {limits : Limits} {r : Request} {n : Nat} :
    r.announcedLength limits = .ok n ↔
      (r.header? "Content-Length" = none ∧ n = 0) ∨
        ∃ text, r.header? "Content-Length" = some text ∧ Text.Decimal text.toList n ∧
          n ≤ limits.body.toNat := by
  have hr (text : String) : contentLength limits text = .ok n ↔
      Text.Decimal text.toList n ∧ n ≤ limits.body.toNat := by
    unfold contentLength
    constructor
    · intro h
      split at h
      · rename_i k hk
        split at h
        · rename_i hle
          cases h
          exact ⟨(Text.readNat_eq_ok_iff.1 hk).1, hle⟩
        · cases h
      · cases h
    · rintro ⟨hd, hle⟩
      have hmax : n ≤ UInt64.size - 1 :=
        Nat.le_sub_one_of_lt (Nat.lt_of_le_of_lt hle limits.body.toNat_lt)
      rw [Text.readNat_eq_ok_iff.2 ⟨hd, hmax⟩]
      exact if_pos hle
  cases hh : r.header? "Content-Length" with
  | none => simp [announcedLength, hh, eq_comm]
  | some text => simp [announcedLength, hh, hr]

end Request

/-! ### Whole requests -/

/-- The header lines of a request, the empty line behind them and the body. -/
structure BlockText where
  lines : List Bytes
  last : Bytes
  body : Bytes

namespace BlockText

def bytes (t : BlockText) : Bytes :=
  t.lines.flatMap (· ++ [lineFeed]) ++ t.last ++ lineFeed :: t.body

/-- The lines spell the fields, one each, and the last line is empty. -/
structure Spells (limits : Limits) (t : BlockText) (fields : List Header) : Prop where
  lines : List.Forall₂ (Header.Line limits) t.lines fields
  last : t.last = [] ∨ t.last = [carriageReturn]

end BlockText

/-- The header fields ask for the body and make up the request: the names fit, the last
sequence number is the request's, and the last body length is that of the body. -/
structure Request.Carries (limits : Limits) (capacity : Nat) (fields : List Header) (body : Bytes)
    (r : Request) : Prop where
  names_fit : (distinct fields).length ≤ capacity
  headers_eq : r.headers = ⟨capacity, collect fields⟩
  cseq : ∃ text, lastValue? "CSeq" fields = some text ∧ Text.Decimal text.toList r.cseq.toNat
  length : (lastValue? "Content-Length" fields = none ∧ body.length = 0) ∨
    ∃ text, lastValue? "Content-Length" fields = some text ∧
      Text.Decimal text.toList body.length ∧ body.length ≤ limits.body.toNat
  body_eq : r.body = body

/-- What follows the target: blanks, the version line and the header block. -/
structure VersionText where
  space : Bytes
  version : Bytes
  block : BlockText

namespace VersionText

def bytes (t : VersionText) : Bytes :=
  t.space ++ t.version ++ lineFeed :: t.block.bytes

structure Denotes (limits : Limits) (capacity : Nat) (fields : List Header) (t : VersionText)
    (r : Request) : Prop where
  space : ∀ b ∈ t.space, isSpace b
  space_fits : t.space.length ≤ Limits.versionLine.toNat
  version : Version.Line t.version
  block : t.block.Spells limits fields
  carries : r.Carries limits capacity fields t.block.body

end VersionText

/-- What follows the method: blanks, the target and the rest of the request, which has to
begin with a blank. -/
structure TargetText where
  gap : Bytes
  target : Bytes
  rest : VersionText

namespace TargetText

def bytes (t : TargetText) : Bytes :=
  t.gap ++ t.target ++ t.rest.bytes

structure Denotes (limits : Limits) (capacity : Nat) (fields : List Header) (t : TargetText)
    (r : Request) : Prop where
  gap : ∀ b ∈ t.gap, isSpace b
  target_ne : t.target ≠ []
  target : ∀ b ∈ t.target, isGraphic b
  target_fits : t.gap.length + t.target.length ≤ limits.uri.toNat
  uri_eq : r.uri = Text.ofAscii t.target
  space_ne : t.rest.space ≠ []
  rest : t.rest.Denotes limits capacity fields r

end TargetText

/-- A request as it is written: blanks and line breaks, the method, and the rest, which has
to begin with a blank. -/
structure RequestText where
  lead : Bytes
  method : Bytes
  rest : TargetText

namespace RequestText

def bytes (t : RequestText) : Bytes :=
  t.lead ++ t.method ++ t.rest.bytes

/-- The text is a well-formed request within the limits, and `r` is what it says. -/
structure Denotes (limits : Limits) (capacity : Nat) (fields : List Header) (t : RequestText)
    (r : Request) : Prop where
  lead : ∀ b ∈ t.lead, isSeparator b
  method : Method.Names t.method r.method
  method_fits : t.lead.length + t.method.length ≤ limits.method.toNat
  gap_ne : t.rest.gap ≠ []
  rest : t.rest.Denotes limits capacity fields r

end RequestText

end RealTimeStreaming
