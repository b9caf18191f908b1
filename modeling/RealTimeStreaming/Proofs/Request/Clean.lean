import RealTimeStreaming.Proofs.Request.Faults
import RealTimeStreaming.Proofs.Request.HeaderTable
import RealTimeStreaming.Proofs.Request.Progress
import RealTimeStreaming.Proofs.Response.Reading

/-! What the texts of a request can hold, whatever the parser was shown. Each text is checked
before it is stored, and a call that fails stores nothing more, so a request that only the parser
has written to is clean between any two calls. None of its texts has a line feed, so a response
that quotes it keeps its lines. -/

namespace RealTimeStreaming

open Octet

/-! ### Clean requests -/

/-- The method has a registered name, or one of letters and digits or of nothing at all. -/
structure Method.Clean (limits : Limits) (m : Method) : Prop where
  name : m ∈ registered ∨ ∀ b ∈ Text.utf8 m.name, isAlphanumeric b
  fits : (Text.utf8 m.name).length ≤ limits.method.toNat

/-- The name is one of a header, and the value is on one line, without blanks at its ends. With
a colon they fit on a line within the limit. -/
structure Header.Clean (limits : Limits) (h : Header) : Prop where
  name_ne : Text.utf8 h.name ≠ []
  name_chars : ∀ b ∈ Text.utf8 h.name, isNameChar b
  no_lineFeed : lineFeed ∉ Text.utf8 h.value
  value_start : ∀ b ∈ (Text.utf8 h.value).head?, isBlank b = false
  value_end : ∀ b ∈ (Text.utf8 h.value).getLast?, isBlank b = false
  fits : (Text.utf8 h.name).length + (Text.utf8 h.value).length < limits.headerLine.toNat

structure HeaderMap.Clean (limits : Limits) (capacity : Nat) (m : HeaderMap) : Prop where
  capacity_eq : m.capacity = capacity
  size_le : m.size ≤ capacity
  names : (m.entries.map fun h => Text.foldCase h.name).Nodup
  entries : ∀ h ∈ m.entries, h.Clean limits

structure Request.Clean (limits : Limits) (capacity : Nat) (r : Request) : Prop where
  method : r.method.Clean limits
  uri : ∀ b ∈ Text.utf8 r.uri, isGraphic b
  uri_fits : (Text.utf8 r.uri).length ≤ limits.uri.toNat
  headers : r.headers.Clean limits capacity
  body_fits : r.body.length ≤ limits.body.toNat

/-! ### What is stored -/

theorem lt_of_isGraphic {b : UInt8} (h : isGraphic b) : b < 0x80 := by
  simp only [isGraphic, Bool.and_eq_true, decide_eq_true_eq, UInt8.le_iff_toNat_le,
    UInt8.reduceToNat] at h
  rw [UInt8.lt_iff_toNat_lt]
  simp only [UInt8.reduceToNat]
  omega

theorem lt_of_isNameChar {b : UInt8} (h : isNameChar b) : b < 0x80 :=
  lt_of_isGraphic (isGraphic_of_isNameChar h)

variable {limits : Limits} {capacity : Nat}

theorem Method.Names.clean {token : Bytes} {m : Method} (h : Names token m)
    (hfits : token.length ≤ limits.method.toNat) : m.Clean limits := by
  cases h with
  | registered hm => exact ⟨.inl hm, hfits⟩
  | extension _ hchars =>
    have htext : Text.utf8 (Text.ofAscii token) = token :=
      Text.utf8_ofAscii fun b hb => lt_of_isGraphic (isGraphic_of_isAlphanumeric (hchars b hb))
    have hname : Text.utf8 (Method.extension (Text.ofAscii token)).name = token := htext
    refine ⟨.inr ?_, ?_⟩
    · rwa [hname]
    · rwa [hname]

theorem Header.Line.clean {line : Bytes} {h : Header} (hline : Header.Line limits line h) :
    h.Clean limits := by
  obtain ⟨t, hbytes, ht⟩ := hline.spells
  have hname : Text.utf8 h.name = t.name := by
    rw [ht.name_eq]
    exact Text.utf8_ofAscii fun b hb => lt_of_isNameChar (ht.name_chars b hb)
  have hfits := hline.fits
  rw [← hbytes] at hfits
  simp only [FieldText.bytes, List.length_append, List.length_cons] at hfits
  refine ⟨hname ▸ ht.name_ne, hname ▸ ht.name_chars, hline.lineFeed_notMem,
    ht.value_eq ▸ ht.value_start, ht.value_eq ▸ ht.value_end, ?_⟩
  rw [hname, ht.value_eq]
  omega

theorem Header.Clean.length_name {h : Header} (hclean : h.Clean limits) :
    (Text.utf8 h.name).length = (Text.foldCase h.name).length := by
  rw [Text.foldCase, List.length_map]
  exact Text.length_utf8_of_ascii fun b hb =>
    lt_of_isNameChar (hclean.name_chars b hb)

/-- Overwriting keeps the headers clean: spellings of one name are of one length, so the new value
fits beside the old spelling. -/
theorem Header.clean_of_mem_collect {fields : List Header} (hfields : ∀ f ∈ fields, f.Clean limits)
    {h : Header} (hm : h ∈ collect fields) : h.Clean limits := by
  obtain ⟨f, hf, l, hl, hname, hvalue, hfold⟩ := exists_fields_of_mem_collect hm
  have hfirst := hfields f hf
  have hlast := hfields l hl
  have hlength : (Text.utf8 f.name).length = (Text.utf8 l.name).length := by
    rw [hfirst.length_name, hlast.length_name, hfold]
  refine ⟨hname ▸ hfirst.name_ne, hname ▸ hfirst.name_chars, hvalue ▸ hlast.no_lineFeed,
    hvalue ▸ hlast.value_start, hvalue ▸ hlast.value_end, ?_⟩
  rw [hname, hvalue, hlength]
  exact hlast.fits

theorem HeaderMap.Clean.readLine {m m' : HeaderMap} (h : m.Clean limits capacity) {w : Bytes}
    {n : Nat} (hread : m.readLine limits w = .complete (.stored m') n) :
    m'.Clean limits capacity := by
  obtain ⟨room, entries⟩ := m
  obtain rfl : room = capacity := h.capacity_eq
  have hcollect : collect entries = entries := collect_of_nodup h.names
  have hfit : (distinct entries).length ≤ room := by
    rw [← size_collect room, hcollect]
    exact h.size_le
  rw [← hcollect, HeaderMap.readLine_eq_stored_iff hfit] at hread
  obtain ⟨line, f, rest, -, hline, hroom, rfl, -⟩ := hread
  have hfields : ∀ e ∈ entries ++ [f], e.Clean limits := by
    intro e he
    rcases List.mem_append.1 he with he | he
    · exact h.entries e he
    · rw [List.mem_singleton.1 he]
      exact hline.clean
  refine ⟨rfl, ?_, nodup_keys_collect _, fun e he => Header.clean_of_mem_collect hfields he⟩
  rw [size_collect]
  exact hroom

theorem Request.clean_blank (limits : Limits) (capacity : Nat) :
    (Request.blank capacity).Clean limits capacity where
  method := ⟨.inr (List.forall_mem_nil _), Nat.zero_le _⟩
  uri := List.forall_mem_nil _
  uri_fits := Nat.zero_le _
  headers := ⟨rfl, Nat.zero_le _, List.nodup_nil, List.forall_mem_nil _⟩
  body_fits := Nat.zero_le _

theorem Request.Clean.clear {r : Request} (h : r.Clean limits capacity) :
    r.clear.Clean limits capacity := by
  rw [Request.clear, h.headers.capacity_eq]
  exact clean_blank limits capacity

namespace Parser

/-! ### Any use of a parser -/

/-- What is done with a parser. The windows need not belong to one stream. -/
inductive Use where
  | parse (window : Bytes)
  | reset
deriving DecidableEq, Repr

/-- The parser and its request after one use. -/
def use (p : Parser) (r : Request) : Use → Parser × Request
  | .parse window => p.parse r window
  | .reset => (p.reset, r)

def useAll (p : Parser) (r : Request) : List Use → Parser × Request
  | [] => (p, r)
  | u :: rest => (p.use r u).1.useAll (p.use r u).2 rest

/-- The request is clean and stays so when the body is taken. -/
structure Tidy (limits : Limits) (capacity : Nat) (p : Parser) (r : Request) : Prop where
  limits_eq : p.limits = limits
  body_fits : p.stage = .body → p.bodyLength ≤ limits.body.toNat
  clean : r.Clean limits capacity

namespace Tidy

variable {p q : Parser} {r s : Request} {w x : Bytes} {n : Nat} {e : ParseError}

theorem held (h : Tidy limits capacity p r) : Tidy limits capacity p (p.held r) where
  limits_eq := h.limits_eq
  body_fits := h.body_fits
  clean := by
    by_cases hp : p.stage = .method
    · rw [held_of_method hp]
      exact h.clean.clear
    · rw [held_of_ne_method hp]
      exact h.clean

theorem advances (h : Tidy limits capacity p r) (hstep : p.Advances r w q s n) :
    Tidy limits capacity { q with offset := p.offset + n } s := by
  obtain ⟨rfl, hbody, hclean⟩ := h
  cases hstep with
  | method hp hread =>
    obtain ⟨lead, token, _, _, -, -, hm, -, rfl, hle⟩ := Method.read_eq_complete_iff.1 hread
    have hmethod := hm.clean (Nat.le_trans (Nat.le_add_left _ _) hle)
    exact ⟨rfl, nofun, { hclean.clear with method := hmethod }⟩
  | target hp hread =>
    obtain ⟨gap, token, _, _, -, -, -, hg, rfl, -, rfl, hle⟩ := readTarget_eq_complete_iff.1 hread
    have htext : Text.utf8 (Text.ofAscii token) = token :=
      Text.utf8_ofAscii fun b hb => lt_of_isGraphic (hg b hb)
    have hfits := Nat.le_trans (Nat.le_add_left _ _) hle
    exact ⟨rfl, nofun, { hclean with uri := htext.symm ▸ hg, uri_fits := htext.symm ▸ hfits }⟩
  | version hp hread => exact ⟨rfl, nofun, { hclean with }⟩
  | line hp hread =>
    exact ⟨rfl, hbody, { hclean with headers := hclean.headers.readLine hread }⟩
  | @blank cseq length n hp _ _ hlength =>
    have hfits : length ≤ p.limits.body.toNat := by
      obtain ⟨-, rfl⟩ | ⟨_, -, -, hle⟩ := Request.announcedLength_eq_ok_iff.1 hlength
      · exact Nat.zero_le _
      · exact hle
    exact ⟨rfl, fun _ => hfits, { hclean with }⟩
  | body hp =>
    have hfits : (w.take p.bodyLength).length ≤ p.limits.body.toNat :=
      Nat.le_trans (List.length_take_le _ _) (hbody hp)
    exact ⟨rfl, nofun, { hclean with body_fits := hfits }⟩

theorem refuses (h : Tidy limits capacity p r) (hrefuses : p.Refuses r w s e) :
    Tidy limits capacity { p with stage := .failed e } s := by
  refine ⟨h.limits_eq, nofun, ?_⟩
  cases hrefuses with
  | method => exact h.clean.clear
  | length => exact { h.clean with }
  | _ => exact h.clean

theorem stops (h : Tidy limits capacity p r) (hstops : p.Stops r w q s) :
    Tidy limits capacity q s := by
  cases hstops with
  | waits => exact h.held
  | fails hrefuses => exact h.refuses hrefuses

theorem parse (h : Tidy limits capacity p r) (x : Bytes) :
    Tidy limits capacity (p.parse r x).1 (p.parse r x).2 := by
  obtain ⟨q, s, hreads, hstops⟩ := readsTo_parse p r x
  have hq : Tidy limits capacity q s := hreads.keeps (fun hstep hp => hp.advances hstep) h
  exact hq.stops hstops

theorem useAll (h : Tidy limits capacity p r) (uses : List Use) :
    Tidy limits capacity (p.useAll r uses).1 (p.useAll r uses).2 := by
  induction uses generalizing p r with
  | nil => exact h
  | cons u uses ih =>
    cases u with
    | parse window => exact ih (h.parse window)
    | reset => exact ih ⟨h.limits_eq, nofun, h.clean⟩

end Tidy

end Parser

/-! ### Quotations -/

/-- The texts that stand on the lines of a response. -/
def Response.texts (r : Response) : List String :=
  r.reason :: r.headers.flatMap fun header => [header.1, header.2]

/-- A text put together from pieces of one line each and from what a request says. -/
inductive Request.Quotes (r : Request) : String → Prop
  | own {s : String} (h : lineFeed ∉ Text.utf8 s) : Quotes r s
  | uri : Quotes r r.uri
  | value {h : Header} (hm : h ∈ r.headers.entries) : Quotes r h.value
  | append {s t : String} (hs : Quotes r s) (ht : Quotes r t) : Quotes r (s ++ t)

theorem Request.Quotes.lineFeed_notMem {r : Request} {s : String} (h : r.Quotes s)
    (hclean : r.Clean limits capacity) : lineFeed ∉ Text.utf8 s := by
  induction h with
  | own h => exact h
  | uri => exact fun hm => absurd (hclean.uri _ hm) (by decide)
  | value hm => exact (hclean.headers.entries _ hm).no_lineFeed
  | append _ _ hs ht =>
    rw [Text.utf8_append, List.mem_append, not_or]
    exact ⟨hs, ht⟩

namespace Response

theorem lineFeed_notMem_of_mem_lines {r : Response}
    (h : ∀ text ∈ r.texts, lineFeed ∉ Text.utf8 text) {line : Bytes} (hm : line ∈ r.lines) :
    lineFeed ∉ line := by
  have hdigits (n : Nat) : lineFeed ∉ Text.utf8 (toString n) := by
    intro hm
    have hdigit := Text.isDigit_of_mem_toString (Text.mem_of_mem_utf8 hm (by decide))
    exact absurd hdigit (by decide)
  have hown : ∀ header ∈ r.headers,
      lineFeed ∉ Text.utf8 header.1 ∧ lineFeed ∉ Text.utf8 header.2 := by
    intro header hheader
    have htexts (text : String) (ht : text ∈ [header.1, header.2]) : lineFeed ∉ Text.utf8 text :=
      h text (List.mem_cons_of_mem _ (List.mem_flatMap.2 ⟨header, hheader, ht⟩))
    exact ⟨htexts _ (by simp), htexts _ (by simp)⟩
  have hall : ∀ header ∈ r.allHeaders, lineFeed ∉ Text.utf8 header.1 ∧
      lineFeed ∉ Text.utf8 header.2 :=
    forall_allHeaders hown fun n => ⟨(by decide : lineFeed ∉ Text.utf8 lengthName), hdigits n⟩
  rw [lines, List.mem_cons] at hm
  rcases hm with rfl | hm
  · rw [statusText_eq]
    simp only [Text.utf8_append, List.mem_append, not_or]
    exact ⟨by decide, hdigits _, by decide, h _ List.mem_cons_self⟩
  · obtain ⟨header, hheader, rfl⟩ := List.mem_map.1 hm
    simp only [headerText, Text.utf8_append, List.mem_append, not_or]
    exact ⟨⟨(hall header hheader).1, by decide⟩, (hall header hheader).2⟩

/-- A response of texts without line feeds has the lines it is written with and no others. -/
theorem splitOn_encode {r : Response} (h : ∀ text ∈ r.texts, lineFeed ∉ Text.utf8 text) :
    r.encode.splitOn lineFeed =
      r.lines.map (· ++ [carriageReturn]) ++ (crlf ++ r.body.getD []).splitOn lineFeed := by
  rw [encode_eq]
  exact splitOn_lines (fun line hm => lineFeed_notMem_of_mem_lines h hm) _

end Response

/-- A request holds clean texts only, whatever its parser is shown and however often it is
reset. So a response with quotations from it splits into the lines it is written with: one for
the status, one for every header, and the empty one in front of the body. -/
theorem Parser.useAll_clean (limits : Limits) (capacity : Nat) (uses : List Use) :
    let r := (({ limits } : Parser).useAll (.blank capacity) uses).2
    r.Clean limits capacity ∧
    ∀ answer : Response, (∀ text ∈ answer.texts, r.Quotes text) →
      answer.encode.splitOn lineFeed =
        answer.lines.map (· ++ [carriageReturn]) ++
          (crlf ++ answer.body.getD []).splitOn lineFeed := by
  intro r
  have hnew : Tidy limits capacity { limits } (.blank capacity) :=
    ⟨rfl, nofun, Request.clean_blank limits capacity⟩
  have hclean : r.Clean limits capacity := (hnew.useAll uses).clean
  refine ⟨hclean, fun answer hquotes => Response.splitOn_encode fun text htext => ?_⟩
  exact (hquotes text htext).lineFeed_notMem hclean

end RealTimeStreaming
