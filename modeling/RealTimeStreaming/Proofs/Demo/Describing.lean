import RealTimeStreaming.Demo.Description
import RealTimeStreaming.Proofs.Demo.Answers
import RealTimeStreaming.Proofs.Text.Base64

/-! What a client reads in a session description: lines, the part for each medium, and in the part
for a video the first of its parameter sets, byte for byte. -/

namespace RealTimeStreaming

/-! ### Reading a description -/

namespace Description

/-- The texts in front of the line feeds, without the last character of each. -/
def lines (text : List Char) : List (List Char) :=
  (text.splitOn '\n').dropLast.map List.dropLast

/-- The line begins the part for a medium. -/
def opens (medium : String) (line : List Char) : Bool :=
  ("m=" ++ medium).toList.isPrefixOf line

/-- The part for a medium, up to where another part begins. -/
def part? (medium : String) (lines : List (List Char)) : Option (List (List Char)) :=
  match lines.dropWhile (!opens medium ·) with
  | [] => none
  | first :: rest => some (first :: rest.takeWhile (!opens "" ·))

def isPayloadFormat (line : List Char) : Bool :=
  "a=rtpmap:".toList.isPrefixOf line

def isFormatParameters (line : List Char) : Bool :=
  "a=fmtp:".toList.isPrefixOf line

/-- What the line gives as the value of a format parameter. -/
def parameter? (name : String) (line : List Char) : Option (List Char) :=
  (Text.cutAt ' ' line).bind fun (_, parameters) =>
    (parameters.splitOn ';').findSome? (Text.afterStart? (name ++ "=").toList)

theorem lines_flatten {texts : List (List Char)} (h : ∀ line ∈ texts, '\n' ∉ line) :
    lines (texts.map (· ++ ['\r', '\n'])).flatten = texts := by
  have hending : '\n' ∉ ['\r'] := by decide
  have hsplit := Text.splitOn_ended hending h []
  rw [List.append_nil, List.splitOn_nil] at hsplit
  have hlines : lines (texts.map (· ++ (['\r'] ++ ['\n']))).flatten = texts := by
    rw [lines, hsplit, List.dropLast_concat, List.map_map]
    simp [Function.comp_def]
  exact hlines

variable {medium : String} {front rest : List (List Char)} {first : List Char}

theorem part?_eq_none (h : ∀ line ∈ front, opens medium line = false) :
    part? medium front = none := by
  have hskip : front.dropWhile (!opens medium ·) = [] := by simpa using h
  rw [part?, hskip]

theorem part?_append (h : ∀ line ∈ front, opens medium line = false)
    (hfirst : opens medium first = true) :
    part? medium (front ++ first :: rest) = some (first :: rest.takeWhile (!opens "" ·)) := by
  have hskip : (front ++ first :: rest).dropWhile (!opens medium ·) = first :: rest :=
    Text.dropWhile_run (by simpa using h) (by simpa using hfirst)
  rw [part?, hskip]

end Description

/-! ### The first unit of a type -/

namespace H264

/-- The unit has the type, and no unit in front of it has. -/
def First (unitType : UInt8) (units : List NalUnit) (unit : NalUnit) : Prop :=
  unit.header.unitType = unitType ∧
    ∃ before after, units = before ++ unit :: after ∧
      ∀ other ∈ before, other.header.unitType ≠ unitType

variable {unitType : UInt8} {units : List NalUnit} {unit sps pps : NalUnit}

theorem find?_eq_some_iff_first :
    units.find? (·.header.unitType == unitType) = some unit ↔ First unitType units unit := by
  simp [List.find?_eq_some_iff_append, First]

/-- One more unit goes into a slot that is empty if it has the type. -/
theorem or_find?_cons (slot : Option NalUnit) (unitType : UInt8) (unit : NalUnit)
    (units : List NalUnit) :
    slot.or ((unit :: units).find? (·.header.unitType == unitType)) =
      (if unit.header.unitType == unitType && slot.isNone then some unit else slot).or
        (units.find? (·.header.unitType == unitType)) := by
  cases slot with
  | none =>
    rw [List.find?_cons]
    cases unit.header.unitType == unitType <;> rfl
  | some found => simp

/-- The search ends early, and misses nothing. -/
theorem findParameterSets_eq {sps pps : Option NalUnit} (h : sps = none ∨ pps = none)
    (units : List NalUnit) :
    findParameterSets sps pps units =
      (sps.or (units.find? (·.header.unitType == NalHeader.sequenceParameterSet))).bind
        fun sps => (pps.or (units.find? (·.header.unitType == NalHeader.pictureParameterSet))).map
          fun pps => (sps, pps) := by
  induction units generalizing sps pps with
  | nil =>
    obtain rfl | rfl := h
    · rfl
    · cases sps <;> rfl
  | cons unit units ih =>
    rw [findParameterSets, or_find?_cons, or_find?_cons]
    split
    · rename_i sps' pps' hsps hpps
      rw [hsps, hpps]
      rfl
    · rename_i hopen
      apply ih
      rw [← Option.not_isSome_iff_eq_none, ← Option.not_isSome_iff_eq_none, ← not_and_or]
      rintro ⟨hsps, hpps⟩
      exact hopen _ _ (Option.some_get hsps).symm (Option.some_get hpps).symm

theorem parameterSets_eq_some_iff {data : Bytes} :
    parameterSets data = some (sps, pps) ↔
      First 7 (splitUnits data) sps ∧ First 8 (splitUnits data) pps := by
  rw [parameterSets, findParameterSets_eq (.inl rfl), Option.none_or, Option.none_or,
    ← find?_eq_some_iff_first, ← find?_eq_some_iff_first]
  simp [Option.bind_eq_some_iff, NalHeader.sequenceParameterSet, NalHeader.pictureParameterSet]

theorem isSome_parameterSets_iff {data : Bytes} :
    (parameterSets data).isSome ↔
      (∃ u ∈ splitUnits data, u.header.unitType = 7) ∧
        ∃ u ∈ splitUnits data, u.header.unitType = 8 := by
  have hfind (unitType : UInt8) : (∃ u ∈ splitUnits data, u.header.unitType = unitType) ↔
      ((splitUnits data).find? (·.header.unitType == unitType)).isSome := by
    simp [List.find?_isSome]
  rw [parameterSets, findParameterSets_eq (.inl rfl), Option.none_or, Option.none_or, hfind, hfind,
    NalHeader.sequenceParameterSet, NalHeader.pictureParameterSet]
  cases (splitUnits data).find? (·.header.unitType == 7) <;>
    cases (splitUnits data).find? (·.header.unitType == 8) <;> simp

end H264

/-! ### The lines that are written -/

namespace Demo

open Description (opens part? parameter? isPayloadFormat isFormatParameters)
open H264 (NalUnit parameterSets)
open Response (OneLine)
open Text.Base64 (encodeChars decodeChars? symbol not_mem_encodeChars)

/-- A line of the type that its first character stands for. -/
structure Typed (kind : Char) (line : String) : Prop where
  head : line.toList.head? = some kind
  oneLine : OneLine line

instance (kind : Char) (line : String) : Decidable (Typed kind line) :=
  decidable_of_iff (line.toList.head? = some kind ∧ OneLine line)
    ⟨fun h => ⟨h.1, h.2⟩, fun h => ⟨h.head, h.oneLine⟩⟩

namespace Typed

variable {kind : Char} {line more : String}

theorem append (h : Typed kind line) (hmore : OneLine more) : Typed kind (line ++ more) where
  head := by rw [String.toList_append, List.head?_append, h.head, Option.some_or]
  oneLine := Response.oneLine_append h.oneLine hmore

theorem ne_nil (h : Typed kind line) : line.toList ≠ [] := by
  intro hnil
  have hhead := h.head
  rw [hnil] at hhead
  cases hhead

theorem opens_eq_false (h : Typed kind line) (hkind : kind ≠ 'm') (medium : String) :
    opens medium line.toList = false := by
  rw [opens, Bool.eq_false_iff, Ne, List.isPrefixOf_iff_prefix, String.toList_append]
  rintro ⟨rest, hrest⟩
  have hhead := h.head
  rw [← hrest] at hhead
  exact hkind (Option.some.inj hhead).symm

end Typed

theorem typed_sessionLines (sessionId : UInt64) :
    ∀ line ∈ sessionLines sessionId, ∃ kind ≠ 'm', Typed kind line := by
  have hopening : Typed 'o' "o=- " := by decide
  have horigin : Typed 'o' s!"o=- {sessionId} 1 IN IP4 0.0.0.0" :=
    (hopening.append (Response.oneLine_toString sessionId.toNat)).append (by decide)
  simp only [sessionLines, List.forall_mem_cons]
  exact ⟨⟨'v', by decide⟩, ⟨'o', by decide, horigin⟩, ⟨'s', by decide⟩, ⟨'c', by decide⟩,
    ⟨'t', by decide⟩, ⟨'a', by decide⟩, by simp⟩

theorem opens_sessionLines (sessionId : UInt64) (medium : String) :
    ∀ line ∈ (sessionLines sessionId).map String.toList, opens medium line = false := by
  rw [List.forall_mem_map]
  intro line hline
  obtain ⟨kind, hkind, htyped⟩ := typed_sessionLines sessionId line hline
  exact htyped.opens_eq_false hkind medium

/-- The two parameter sets as the description gives them. -/
def writtenSets (sets : NalUnit × NalUnit) : List Char :=
  encodeChars sets.1.bytes ++ ',' :: encodeChars sets.2.bytes

theorem not_mem_writtenSets {c : Char} (hpad : c ≠ '=') (hcomma : c ≠ ',')
    (hsymbol : ∀ n < 64, c ≠ symbol n) (sets : NalUnit × NalUnit) : c ∉ writtenSets sets := by
  simp only [writtenSets, List.mem_append, List.mem_cons, not_or]
  exact ⟨not_mem_encodeChars hpad hsymbol _, hcomma, not_mem_encodeChars hpad hsymbol _⟩

theorem toList_parameterSetsParameter (video : Bytes) :
    (parameterSetsParameter video).toList =
      match parameterSets video with
      | some sets => ';' :: ("sprop-parameter-sets=".toList ++ writtenSets sets)
      | none => [] := by
  rw [parameterSetsParameter]
  cases parameterSets video with
  | none => rfl
  | some sets =>
    have hstart : ";sprop-parameter-sets=".toList = ';' :: "sprop-parameter-sets=".toList := by
      decide
    have hcomma : ",".toList = [','] := by decide
    simp only [String.toList_append, Text.Base64.encode, String.toList_ofList, hstart, hcomma,
      writtenSets, List.append_assoc, List.cons_append, List.nil_append]

theorem oneLine_parameterSetsParameter (video : Bytes) :
    OneLine (parameterSetsParameter video) := by
  rw [OneLine, toList_parameterSetsParameter]
  cases parameterSets video with
  | none => simp
  | some sets =>
    have hreturn : '\r' ∉ writtenSets sets :=
      not_mem_writtenSets (by decide) (by decide) (by decide +kernel) sets
    have hfeed : '\n' ∉ writtenSets sets :=
      not_mem_writtenSets (by decide) (by decide) (by decide +kernel) sets
    simp only [List.mem_cons, List.mem_append, not_or]
    exact ⟨⟨by decide, by decide, hreturn⟩, by decide, by decide, hfeed⟩

theorem parameter?_parameterSets (video : Bytes) :
    parameter? "sprop-parameter-sets"
        ("a=fmtp:96 packetization-mode=1" ++ parameterSetsParameter video).toList =
      (parameterSets video).map writtenSets := by
  have hcut : "a=fmtp:96 packetization-mode=1".toList =
      "a=fmtp:96".toList ++ ' ' :: "packetization-mode=1".toList := by decide
  have hspace : ' ' ∉ "a=fmtp:96".toList := by decide
  have hmode : ';' ∉ "packetization-mode=1".toList := by decide
  have hother : Text.afterStart? ("sprop-parameter-sets" ++ "=").toList
      "packetization-mode=1".toList = none := by decide
  rw [parameter?, String.toList_append, hcut, List.append_assoc, List.cons_append,
    Text.cutAt_append hspace, Option.bind_some, toList_parameterSetsParameter]
  cases parameterSets video with
  | none => decide
  | some sets =>
    have hsets : ';' ∉ "sprop-parameter-sets=".toList ++ writtenSets sets := by
      rw [List.mem_append, not_or]
      exact ⟨by decide, not_mem_writtenSets (by decide) (by decide) (by decide +kernel) sets⟩
    simp only
    rw [List.splitOn_append_cons_self_of_not_mem hmode, List.splitOn_eq_singleton hsets,
      List.findSome?_cons, hother, List.findSome?_singleton]
    exact Text.afterStart?_eq_some.2 rfl

theorem videoLines_eq (video : Bytes) (frameRate : UInt32) :
    videoLines video frameRate =
      ["m=video 0 RTP/AVP 96", "a=control:video", "a=rtpmap:96 H264/90000",
        "a=fmtp:96 packetization-mode=1" ++ parameterSetsParameter video,
        "a=framerate:" ++ toString frameRate] :=
  rfl

/-- The lines of a part for the medium, none of which begins a part for the other one. -/
structure PartFor (medium other : String) (first : String) (rest : List String) : Prop where
  head : Typed 'm' first
  own : opens medium first.toList = true
  foreign : opens other first.toList = false
  attributes : ∀ line ∈ rest, Typed 'a' line

namespace PartFor

variable {medium other first : String} {rest : List String} {front behind : List (List Char)}

theorem typed (h : PartFor medium other first rest) :
    ∀ line ∈ first :: rest, ∃ kind, Typed kind line :=
  List.forall_mem_cons.2 ⟨⟨'m', h.head⟩, fun line hline => ⟨'a', h.attributes line hline⟩⟩

theorem opens_attributes (h : PartFor medium other first rest) (name : String) :
    ∀ line ∈ rest.map String.toList, opens name line = false :=
  List.forall_mem_map.2 fun line hline =>
    (h.attributes line hline).opens_eq_false (by decide) name

theorem opens_other (h : PartFor medium other first rest) :
    ∀ line ∈ (first :: rest).map String.toList, opens other line = false :=
  List.forall_mem_cons.2 ⟨h.foreign, h.opens_attributes other⟩

theorem part?_eq (h : PartFor medium other first rest)
    (hfront : ∀ line ∈ front, opens medium line = false) :
    part? medium (front ++ (first :: rest).map String.toList) =
      some ((first :: rest).map String.toList) := by
  rw [List.map_cons, Description.part?_append hfront h.own, List.takeWhile_eq_self_iff.2]
  intro line hline
  rw [h.opens_attributes "" line hline]
  rfl

theorem isSome_part? (h : PartFor medium other first rest)
    (hfront : ∀ line ∈ front, opens medium line = false) :
    (part? medium (front ++ ((first :: rest).map String.toList ++ behind))).isSome := by
  rw [List.map_cons, List.cons_append, Description.part?_append hfront h.own]
  rfl

end PartFor

theorem partFor_audioLines :
    PartFor "audio" "video" "m=audio 0 RTP/AVP 0" ["a=control:audio"] where
  head := by decide
  own := by decide
  foreign := by decide
  attributes := by decide

theorem partFor_videoLines (video : Bytes) (frameRate : UInt32) :
    PartFor "video" "audio" "m=video 0 RTP/AVP 96" (videoLines video frameRate).tail where
  head := by decide
  own := by decide
  foreign := by decide
  attributes := by
    rw [videoLines_eq]
    simp only [List.tail_cons, List.forall_mem_cons]
    exact ⟨by decide, by decide, .append (by decide) (oneLine_parameterSetsParameter video),
      .append (by decide) (Response.oneLine_toString frameRate.toNat), by simp⟩

theorem isFormatParameters_parameterSets (video : Bytes) :
    isFormatParameters
      ("a=fmtp:96 packetization-mode=1" ++ parameterSetsParameter video).toList = true := by
  have hstart : "a=fmtp:".toList <+: "a=fmtp:96 packetization-mode=1".toList := by decide
  rw [isFormatParameters, List.isPrefixOf_iff_prefix, String.toList_append]
  exact hstart.trans (List.prefix_append _ _)

theorem filter_videoLines (video : Bytes) (frameRate : UInt32) :
    ((videoLines video frameRate).map String.toList).filter
        (fun line => isPayloadFormat line || isFormatParameters line) =
      ["a=rtpmap:96 H264/90000".toList,
        ("a=fmtp:96 packetization-mode=1" ++ parameterSetsParameter video).toList] := by
  have hparameters := isFormatParameters_parameterSets video
  have hrate : ¬(isPayloadFormat ("a=framerate:" ++ toString frameRate).toList ||
      isFormatParameters ("a=framerate:" ++ toString frameRate).toList) = true := by
    rw [String.toList_append]
    exact Bool.false_ne_true
  simp only [videoLines_eq, List.map_cons, List.map_nil]
  rw [List.filter_cons_of_neg (by decide), List.filter_cons_of_neg (by decide),
    List.filter_cons_of_pos (by decide),
    List.filter_cons_of_pos (by rw [hparameters, Bool.or_true]),
    List.filter_cons_of_neg (by exact hrate), List.filter_nil]

namespace Media

theorem typed_descriptionLines (m : Media) (sessionId : UInt64) :
    ∀ line ∈ m.descriptionLines sessionId, ∃ kind, Typed kind line := by
  simp only [descriptionLines, List.forall_mem_append]
  refine ⟨⟨fun line hline => ?_, ?_⟩, ?_⟩
  · obtain ⟨kind, -, htyped⟩ := typed_sessionLines sessionId line hline
    exact ⟨kind, htyped⟩
  · split
    · exact partFor_audioLines.typed
    · simp
  · split
    · exact (partFor_videoLines _ m.frameRate).typed
    · simp

/-- Nothing in front of the part for a video begins one. -/
theorem opens_front (m : Media) (sessionId : UInt64) :
    ∀ line ∈ (sessionLines sessionId ++
        if m.audio.isSome then audioLines else []).map String.toList,
      opens "video" line = false := by
  rw [List.map_append, List.forall_mem_append]
  refine ⟨opens_sessionLines _ _, ?_⟩
  split
  · exact partFor_audioLines.opens_other
  · simp

theorem part?_video (m : Media) (sessionId : UInt64) :
    part? "video" ((m.descriptionLines sessionId).map String.toList) =
      m.video.map fun video => (videoLines video m.frameRate).map String.toList := by
  rw [descriptionLines, List.map_append]
  cases m.video with
  | some video => exact (partFor_videoLines video m.frameRate).part?_eq (m.opens_front sessionId)
  | none =>
    rw [List.map_nil, List.append_nil, Description.part?_eq_none (m.opens_front sessionId)]
    rfl

theorem isSome_part?_audio (m : Media) (sessionId : UInt64) :
    (part? "audio" ((m.descriptionLines sessionId).map String.toList)).isSome = m.audio.isSome := by
  rw [descriptionLines, List.append_assoc, List.map_append, List.map_append]
  cases m.audio with
  | some audio => exact partFor_audioLines.isSome_part? (opens_sessionLines _ _)
  | none =>
    rw [Description.part?_eq_none]
    · rfl
    · rw [List.forall_mem_append]
      refine ⟨opens_sessionLines _ _, ?_⟩
      cases m.video with
      | some video => exact (partFor_videoLines video m.frameRate).opens_other
      | none => simp

theorem toList_describe (m : Media) (sessionId : UInt64) :
    (m.describe sessionId).toList =
      (((m.descriptionLines sessionId).map String.toList).map (· ++ ['\r', '\n'])).flatten := by
  have hcrlf : "\r\n".toList = ['\r', '\n'] := by decide
  rw [describe, String.toList_join, List.flatMap_map, List.map_map, List.flatMap_def]
  simp only [String.toList_append, hcrlf, Function.comp_def]

theorem lines_describe (m : Media) (sessionId : UInt64) :
    Description.lines (m.describe sessionId).toList =
      (m.descriptionLines sessionId).map String.toList := by
  rw [toList_describe, Description.lines_flatten]
  rw [List.forall_mem_map]
  intro line hline
  obtain ⟨kind, htyped⟩ := typed_descriptionLines m sessionId line hline
  exact htyped.oneLine.2

/-- For any media and any session: a description is a sequence of lines, none of them empty, each
ended by CRLF and without a CR or LF of its own; it has a part for audio and one for video as there
is audio and video; the part for a video has one line that names the payload format and one behind
it that gives parameters of the format; and this gives two parameter sets just when the video has a
unit of either type, and then they are decoded to the first sequence and the first picture parameter
set among its units. -/
theorem describe_carries_parameter_sets (m : Media) (sessionId : UInt64) :
    let text := (m.describe sessionId).toList
    let lines := Description.lines text
    (text = (lines.map (· ++ ['\r', '\n'])).flatten ∧
      ∀ line ∈ lines, line ≠ [] ∧ '\r' ∉ line ∧ '\n' ∉ line) ∧
    ((part? "audio" lines).isSome ↔ m.audio.isSome) ∧
    ((part? "video" lines).isSome ↔ m.video.isSome) ∧
    ∀ video, m.video = some video → ∃ part format parameters,
      part? "video" lines = some part ∧
      part.filter (fun line => isPayloadFormat line || isFormatParameters line) =
        [format, parameters] ∧
      isPayloadFormat format ∧ isFormatParameters parameters ∧
      ((parameter? "sprop-parameter-sets" parameters).isSome ↔
        (∃ u ∈ H264.splitUnits video, u.header.unitType = 7) ∧
          ∃ u ∈ H264.splitUnits video, u.header.unitType = 8) ∧
      ∀ sps pps, H264.First 7 (H264.splitUnits video) sps →
        H264.First 8 (H264.splitUnits video) pps →
        ∃ x y, parameter? "sprop-parameter-sets" parameters = some (x ++ ',' :: y) ∧
          ',' ∉ x ∧ ',' ∉ y ∧
          decodeChars? x = some sps.bytes ∧ decodeChars? y = some pps.bytes := by
  intro text lines
  have hlines : lines = (m.descriptionLines sessionId).map String.toList :=
    lines_describe m sessionId
  refine ⟨⟨?_, ?_⟩, ?_, ?_, ?_⟩
  · rw [hlines]
    exact toList_describe m sessionId
  · rw [hlines, List.forall_mem_map]
    intro line hline
    obtain ⟨kind, htyped⟩ := typed_descriptionLines m sessionId line hline
    exact ⟨htyped.ne_nil, htyped.oneLine⟩
  · rw [hlines, isSome_part?_audio]
  · rw [hlines, part?_video, Option.isSome_map]
  · intro video hvideo
    rw [hlines, part?_video, hvideo]
    refine ⟨_, _, _, rfl, filter_videoLines video m.frameRate, by decide,
      isFormatParameters_parameterSets video, ?_, ?_⟩
    · rw [parameter?_parameterSets, Option.isSome_map, H264.isSome_parameterSets_iff]
    · intro sps pps hsps hpps
      rw [parameter?_parameterSets, H264.parameterSets_eq_some_iff.2 ⟨hsps, hpps⟩]
      exact ⟨_, _, rfl, not_mem_encodeChars (by decide) (by decide +kernel) _,
        not_mem_encodeChars (by decide) (by decide +kernel) _,
        Text.Base64.decodeChars?_encodeChars _, Text.Base64.decodeChars?_encodeChars _⟩

/-- The picture parameter set comes first, and other sets of both types come later. -/
theorem describe_carries_parameter_sets_of_first :
    let video : Bytes :=
      [0, 0, 1, 9, 0xF0, 0, 0, 1, 0x68, 2, 0, 0, 1, 0x67, 3, 4, 0, 0, 1, 0x67, 5, 0, 0, 1, 0x68, 6]
    let lines := Description.lines (({ video := some video : Media }).describe 7).toList
    part? "audio" lines = none ∧ ∃ part format parameters x y,
      part? "video" lines = some part ∧
      part.filter (fun line => isPayloadFormat line || isFormatParameters line) =
        [format, parameters] ∧
      parameter? "sprop-parameter-sets" parameters = some (x ++ ',' :: y) ∧
      decodeChars? x = some [0x67, 3, 4] ∧ decodeChars? y = some [0x68, 2] := by
  intro video lines
  obtain ⟨-, haudio, -, hvideo⟩ := describe_carries_parameter_sets { video } 7
  obtain ⟨part, format, parameters, hpart, hfilter, -, -, -, hsets⟩ := hvideo video rfl
  have hsps : H264.First 7 (H264.splitUnits video) ⟨0x67, [3, 4]⟩ :=
    H264.find?_eq_some_iff_first.1 (by decide +kernel)
  have hpps : H264.First 8 (H264.splitUnits video) ⟨0x68, [2]⟩ :=
    H264.find?_eq_some_iff_first.1 (by decide +kernel)
  obtain ⟨x, y, hgiven, -, -, hx, hy⟩ := hsets _ _ hsps hpps
  refine ⟨?_, part, format, parameters, x, y, hpart, hfilter, hgiven, hx, hy⟩
  rw [← Option.not_isSome_iff_eq_none, haudio]
  decide

end Media

end Demo

end RealTimeStreaming
