import RealTimeStreaming.Proofs.Text.Encoding
import RealTimeStreaming.Proofs.Transport.Grammar

/-! `Transport` headers as a server writes them, in one spelling, and what they are read as. -/

namespace RealTimeStreaming.TransportHeader

open Text

/-- A character that is a part's own wherever it stands. -/
def isPlain (c : Char) : Bool :=
  !isBlank c && c != ';' && c != ','

theorem isPlain_iff {c : Char} : isPlain c ↔ isBlank c = false ∧ c ≠ ';' ∧ c ≠ ',' := by
  simp [isPlain, and_assoc]

theorem isPlain_of_isDigit {c : Char} (h : c.isDigit) : isPlain c := by
  refine isPlain_iff.2 ⟨isBlank_of_isDigit h, ?_, ?_⟩ <;>
  · rintro rfl
    exact absurd h (by decide)

theorem mem_intercalate {sep c : Char} {pieces : List (List Char)}
    (h : c ∈ [sep].intercalate pieces) : c = sep ∨ ∃ piece ∈ pieces, c ∈ piece := by
  induction pieces with
  | nil => cases h
  | cons piece rest ih =>
    cases rest with
    | nil =>
      rw [List.intercalate_singleton] at h
      exact .inr ⟨piece, List.mem_cons_self, h⟩
    | cons next rest =>
      rw [List.intercalate_cons_cons, List.mem_append, List.mem_append, List.mem_singleton] at h
      obtain (h | h) | h := h
      · exact .inr ⟨piece, List.mem_cons_self, h⟩
      · exact .inl h
      · obtain h | ⟨other, hmem, h⟩ := ih h
        · exact .inl h
        · exact .inr ⟨other, List.mem_cons_of_mem piece hmem, h⟩

/-- Plain parts that are joined by semicolons are the parts of the text. -/
theorem parts_of_plain {value : String} {pieces : List (List Char)}
    (hvalue : value.toList = [';'].intercalate pieces) (hne : pieces ≠ [])
    (h : ∀ piece ∈ pieces, piece.all isPlain) : parts value = pieces := by
  have hplain {piece : List Char} (hmem : piece ∈ pieces) {c : Char} (hc : c ∈ piece) :=
    isPlain_iff.1 (List.all_eq_true.1 (h piece hmem) c hc)
  have hcomma : ',' ∉ value.toList := by
    intro hm
    rw [hvalue] at hm
    obtain hm | ⟨piece, hmem, hm⟩ := mem_intercalate hm
    · cases hm
    · exact (hplain hmem hm).2.2 rfl
  have hsemicolon : ∀ piece ∈ pieces, ';' ∉ piece := fun piece hmem hm =>
    (hplain hmem hm).2.1 rfl
  have htrim : pieces.map trimBlanks = pieces.map id := List.map_congr_left fun piece hmem =>
    trim_eq_self fun c hc => (hplain hmem hc).1
  rw [parts, takeWhile_ne_eq_self hcomma, hvalue, List.splitOn_intercalate ';' hsemicolon hne,
    htrim, List.map_id]

theorem spells_toString {max m n : Nat} (hm : m ≤ max) (hn : n ≤ max) :
    Spells max ((toString m).toList ++ '-' :: (toString n).toList) ⟨m, n⟩ := by
  have hnumber {k : Nat} (hk : k ≤ max) : Number max (toString k).toList k := by
    rw [Number, trimBlanks_toString]
    exact ⟨decimal_toString k, hk⟩
  exact .both (fun h => absurd (isDigit_of_mem_toString h) (by decide)) (hnumber hm) (hnumber hn)

/-- The parts of a header that names the lower transport, says that it is for one peer, and gives
a pair. -/
theorem parts_written {text : String} {name start : List Char}
    (htext : text.toList = name ++ ';' :: ("unicast".toList ++ ';' :: start))
    (hname : name.all isPlain) (hstart : start.all isPlain) (m n : Nat) :
    parts (text ++ toString m ++ "-" ++ toString n) =
      [name, "unicast".toList, start ++ ((toString m).toList ++ '-' :: (toString n).toList)] := by
  have hdigits (k : Nat) : (toString k).toList.all isPlain := List.all_eq_true.2 fun c hc =>
    isPlain_of_isDigit (isDigit_of_mem_toString hc)
  refine parts_of_plain ?_ (List.cons_ne_nil _ _) ?_
  · have hhyphen : "-".toList = ['-'] := by decide
    simp only [String.toList_append, htext, hhyphen, List.intercalate_cons_cons,
      List.intercalate_singleton, List.append_assoc, List.cons_append, List.nil_append]
  · rw [List.forall_mem_cons, List.forall_mem_cons, List.forall_mem_singleton]
    refine ⟨hname, by decide, ?_⟩
    rw [List.all_append, List.all_append, List.all_cons, hstart, hdigits m, hdigits n]
    decide

theorem read?_written {text : String} {name start : List Char} {lower : LowerTransport}
    (htext : text.toList = name ++ ';' :: ("unicast".toList ++ ';' :: start))
    (hname : name.all isPlain) (hstart : start.all isPlain) (hlower : readLower? name = some lower)
    {m n : Nat} {t : TransportHeader}
    (h : addPart { lower := lower }
      (start ++ ((toString m).toList ++ '-' :: (toString n).toList)) = some t) :
    read? (text ++ toString m ++ "-" ++ toString n) = some t := by
  have hunicast : addPart { lower := lower } "unicast".toList = some { lower := lower } :=
    addPart_unicast (by decide)
  rw [read?_of_parts (parts_written htext hname hstart m n), hlower, Option.bind_some,
    List.foldlM_cons, hunicast]
  simp only [Option.bind_eq_bind, Option.bind_some, List.foldlM_cons, List.foldlM_nil, h]
  rfl

theorem read?_written_channels (pair : MediaPair UInt8) :
    read? s!"RTP/AVP/TCP;unicast;interleaved={pair.media}-{pair.control}" =
      some { lower := .tcp, channels := some pair } := by
  have htext : "RTP/AVP/TCP;unicast;interleaved=".toList =
      "RTP/AVP/TCP".toList ++ ';' :: ("unicast".toList ++ ';' :: channelsStart) := by decide
  have hspells : Spells (UInt8.size - 1) _ (pair.map UInt8.toNat) :=
    spells_toString (Nat.le_sub_one_of_lt pair.media.toNat_lt)
      (Nat.le_sub_one_of_lt pair.control.toNat_lt)
  have hlower : readLower? "RTP/AVP/TCP".toList = some .tcp := by decide
  refine read?_written htext (by decide) (by decide) hlower ?_
  rw [addPart_channels,
    (map_readPair?_eq_some_iff toNat_toUInt8 fun _ => UInt8.ofNat_toNat).2 hspells, Option.map_some]

theorem read?_written_ports (pair : MediaPair UInt16) :
    read? s!"RTP/AVP/UDP;unicast;client_port={pair.media}-{pair.control}" =
      some { lower := .udp, ports := some pair } := by
  have htext : "RTP/AVP/UDP;unicast;client_port=".toList =
      "RTP/AVP/UDP".toList ++ ';' :: ("unicast".toList ++ ';' :: portsStart) := by decide
  have hspells : Spells (UInt16.size - 1) _ (pair.map UInt16.toNat) :=
    spells_toString (Nat.le_sub_one_of_lt pair.media.toNat_lt)
      (Nat.le_sub_one_of_lt pair.control.toNat_lt)
  have hlower : readLower? "RTP/AVP/UDP".toList = some .udp := by decide
  refine read?_written htext (by decide) (by decide) hlower ?_
  rw [addPart_ports,
    (map_readPair?_eq_some_iff toNat_toUInt16 fun _ => UInt16.ofNat_toNat).2 hspells,
    Option.map_some]

end RealTimeStreaming.TransportHeader
