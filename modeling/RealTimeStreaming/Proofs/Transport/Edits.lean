import Mathlib.Logic.Relation
import RealTimeStreaming.Proofs.Transport.Grammar

/-! What does not matter in a `Transport` header: what follows the first comma, blanks around
its parts and its numbers, parts of no kind, and the order between parts of different kinds.
An edit is one such change, made to the pieces between the semicolons; edits in any number, made
and unmade, leave the reading as it is. -/

namespace RealTimeStreaming.TransportHeader

open Text

variable {start value value' : List Char} {rest rest' : List (List Char)} {t : TransportHeader}

/-- The parts of the first transport as they stand, blanks included. -/
def pieces (value : String) : List (List Char) :=
  (value.toList.takeWhile (· != ',')).splitOn ';'

def Blanks (text : List Char) : Prop :=
  ∀ c ∈ text, isBlank c

/-- Blanks put around the numbers of a pair, or around a lone number. -/
inductive Spaced : List Char → List Char → Prop
  | both {first second lead trail lead' trail' : List Char} (hcut : '-' ∉ first)
      (hl : Blanks lead) (ht : Blanks trail) (hl' : Blanks lead') (ht' : Blanks trail') :
      Spaced (first ++ '-' :: second)
        ((lead ++ first ++ trail) ++ '-' :: (lead' ++ second ++ trail'))
  | lone {text lead trail : List Char} (hcut : '-' ∉ text) (hl : Blanks lead)
      (ht : Blanks trail) : Spaced text (lead ++ text ++ trail)

/-- One change to the pieces after the first. -/
inductive Edit : List (List Char) → List (List Char) → Prop
  /-- A piece of no kind is put in. -/
  | insert (before after : List (List Char)) {piece : List Char}
      (h : ∀ kind, Kind.has kind (trimBlanks piece) = false) :
      Edit (before ++ after) (before ++ piece :: after)
  /-- Blanks are put around a piece. -/
  | pad (before after : List (List Char)) (piece : List Char) {lead trail : List Char}
      (hl : Blanks lead) (ht : Blanks trail) :
      Edit (before ++ piece :: after) (before ++ (lead ++ piece ++ trail) :: after)
  /-- Blanks are put around the numbers of a pair. -/
  | space (before after : List (List Char)) {start value value' : List Char}
      (hs : start = channelsStart ∨ start = portsStart) (h : Spaced value value') :
      Edit (before ++ (start ++ value) :: after) (before ++ (start ++ value') :: after)
  /-- Pieces change places, those of one kind staying in order. -/
  | permute {rest rest' : List (List Char)} (hp : rest.Perm rest')
      (h : ∀ kind, rest.filter (Kind.has kind ∘ trimBlanks) =
        rest'.filter (Kind.has kind ∘ trimBlanks)) : Edit rest rest'

/-! ### Blanks around numbers -/

theorem Blanks.not_mem_hyphen {text : List Char} (h : Blanks text) : '-' ∉ text :=
  fun hm => absurd (h _ hm) (by decide)

theorem not_mem_hyphen_pad {text lead trail : List Char} (hcut : '-' ∉ text) (hl : Blanks lead)
    (ht : Blanks trail) : '-' ∉ lead ++ text ++ trail := by
  rw [List.mem_append, List.mem_append, not_or, not_or]
  exact ⟨⟨hl.not_mem_hyphen, hcut⟩, ht.not_mem_hyphen⟩

theorem readPair?_spaced (max : Nat) (h : Spaced value value') :
    readPair? max value' = readPair? max value := by
  cases h with
  | both hcut hl ht hl' ht' =>
    rw [readPair?, readPair?, cutAt_append hcut, cutAt_append (not_mem_hyphen_pad hcut hl ht)]
    simp only [trimBlanks, trim_pad hl ht, trim_pad hl' ht']
  | lone hcut hl ht =>
    rw [readPair?, readPair?, cutAt_eq_none.2 hcut,
      cutAt_eq_none.2 (not_mem_hyphen_pad hcut hl ht)]
    simp only [trimBlanks, trim_pad hl ht]

/-- Blanks at the end of a value stand behind its last number. -/
theorem spaced_append {text tail : List Char} (ht : Blanks tail) : Spaced text (text ++ tail) := by
  have hnil : Blanks [] := nofun
  by_cases hcut : '-' ∈ text
  · cases h : cutAt '-' text with
    | none => exact absurd hcut (cutAt_eq_none.1 h)
    | some cut =>
      obtain ⟨heq, hfirst⟩ := cutAt_eq_some h
      have hs : Spaced (cut.1 ++ '-' :: cut.2)
          ([] ++ cut.1 ++ [] ++ '-' :: ([] ++ cut.2 ++ tail)) :=
        .both hfirst hnil hnil hnil ht
      rw [heq]
      simpa using hs
  · have hs := Spaced.lone hcut hnil ht
    simpa using hs

theorem exists_trimBlanks_start (hs : start = channelsStart ∨ start = portsStart)
    (value : List Char) :
    ∃ text tail, value = text ++ tail ∧ Blanks tail ∧
      trimBlanks (start ++ value) = start ++ text := by
  obtain ⟨tail, heq, ht, hlast⟩ :=
    trimEnd_eq_iff.1 (rfl : trimEnd isBlank value = trimEnd isBlank value)
  refine ⟨_, tail, heq, ht, trim_eq_iff.2 ⟨[], tail, ?_, nofun, ht, ?_, ?_⟩⟩
  · rw [List.nil_append, List.append_assoc, ← heq]
  · intro c hc
    obtain rfl | rfl := hs <;>
    · obtain rfl := Option.some.inj hc
      decide
  · intro c hc
    rw [List.getLast?_append, Option.mem_def, Option.or_eq_some_iff] at hc
    obtain hc | ⟨-, hc⟩ := hc
    · exact hlast c hc
    · obtain rfl | rfl := hs <;>
      · obtain rfl := Option.some.inj hc
        decide

theorem addPart_start_congr (hs : start = channelsStart ∨ start = portsStart)
    (h : ∀ max, readPair? max value' = readPair? max value) (t : TransportHeader) :
    addPart t (start ++ value') = addPart t (start ++ value) := by
  obtain rfl | rfl := hs
  · rw [addPart_channels, addPart_channels, h]
  · rw [addPart_ports, addPart_ports, h]

/-- Reading a pair does not need its part trimmed. -/
theorem addPart_trimBlanks_start (hs : start = channelsStart ∨ start = portsStart)
    (value : List Char) (t : TransportHeader) :
    addPart t (trimBlanks (start ++ value)) = addPart t (start ++ value) := by
  obtain ⟨text, tail, rfl, ht, heq⟩ := exists_trimBlanks_start hs value
  rw [heq]
  exact (addPart_start_congr hs (fun max => readPair?_spaced max (spaced_append ht)) t).symm

/-! ### Edits -/

theorem foldlM_replace {part part' : List Char} (h : ∀ t, addPart t part' = addPart t part)
    (before after : List (List Char)) (t : TransportHeader) :
    (before ++ part' :: after).foldlM addPart t = (before ++ part :: after).foldlM addPart t := by
  rw [List.foldlM_append, List.foldlM_append]
  simp only [List.foldlM_cons, h]

/-- Only the parts of each kind, in their order, matter. -/
theorem Denotes.of_filter_eq (hd : Denotes rest t)
    (h : ∀ kind, rest'.filter (Kind.has kind) = rest.filter (Kind.has kind)) :
    Denotes rest' t := by
  have hlast (kind : Kind) : lastOf kind rest' = lastOf kind rest := by
    rw [lastOf, lastOf, h]
  refine ⟨?_, ?_, ?_, ?_⟩
  · intro part hmem hm
    obtain ⟨kind, hk⟩ := hm.has
    have hfilter : part ∈ rest'.filter (Kind.has kind) := List.mem_filter.2 ⟨hmem, hk⟩
    rw [h] at hfilter
    exact hd.readable part (List.mem_filter.1 hfilter).1 hm
  · rw [hlast]
    exact hd.multicast_iff
  · rw [hlast]
    exact hd.channels
  · rw [hlast]
    exact hd.ports

theorem foldlM_of_filter_eq
    (h : ∀ kind, rest'.filter (Kind.has kind) = rest.filter (Kind.has kind))
    (lower : LowerTransport) :
    rest'.foldlM addPart { lower := lower } = rest.foldlM addPart { lower := lower } := by
  ext t
  rw [foldlM_eq_some_iff, foldlM_eq_some_iff]
  exact and_congr_right fun _ =>
    ⟨fun hd => hd.of_filter_eq fun kind => (h kind).symm, fun hd => hd.of_filter_eq h⟩

theorem Edit.foldlM_eq (h : Edit rest rest') (lower : LowerTransport) :
    (rest'.map trimBlanks).foldlM addPart { lower := lower } =
      (rest.map trimBlanks).foldlM addPart { lower := lower } := by
  cases h with
  | insert before after h =>
    refine foldlM_of_filter_eq (fun kind => ?_) lower
    rw [List.map_append, List.map_append, List.map_cons, List.filter_append, List.filter_append,
      List.filter_cons_of_neg (by rw [h kind]; decide)]
  | pad before after piece hl ht =>
    rw [List.map_append, List.map_append, List.map_cons, List.map_cons, trimBlanks,
      trim_pad hl ht, ← trimBlanks]
  | space before after hs h =>
    rw [List.map_append, List.map_append, List.map_cons, List.map_cons]
    refine foldlM_replace (fun t => ?_) _ _ _
    rw [addPart_trimBlanks_start hs, addPart_trimBlanks_start hs]
    exact addPart_start_congr hs (fun max => readPair?_spaced max h) t
  | permute hp h =>
    refine foldlM_of_filter_eq (fun kind => ?_) lower
    rw [List.filter_map, List.filter_map, h kind]

/-- Edits made and unmade. -/
theorem foldlM_eq_of_edits (h : Relation.EqvGen Edit rest rest') (lower : LowerTransport) :
    (rest'.map trimBlanks).foldlM addPart { lower := lower } =
      (rest.map trimBlanks).foldlM addPart { lower := lower } := by
  induction h with
  | rel _ _ h => exact h.foldlM_eq lower
  | refl => rfl
  | symm _ _ _ ih => exact ih.symm
  | trans _ _ _ _ _ ih ih' => exact ih'.trans ih

theorem read?_eq_of_edits {value value' : String}
    (hfirst : (parts value).head? = (parts value').head?)
    (h : Relation.EqvGen Edit (pieces value).tail (pieces value').tail) :
    read? value = read? value' := by
  have hrest (text : String) {first : List Char} {rest : List (List Char)}
      (hp : parts text = first :: rest) : rest = (pieces text).tail.map trimBlanks := by
    rw [List.map_tail]
    exact (congrArg List.tail hp).symm
  obtain ⟨first, rest, hp⟩ := exists_parts value
  obtain ⟨first', rest', hp'⟩ := exists_parts value'
  rw [hp, hp', List.head?_cons, List.head?_cons, Option.some.injEq] at hfirst
  rw [read?_of_parts hp, read?_of_parts hp', hfirst, hrest value hp, hrest value' hp']
  congr 1
  funext lower
  exact (foldlM_eq_of_edits h lower).symm

/-- What follows the first comma is not read. -/
theorem read?_before_comma {text rest : String} (h : ',' ∉ text.toList) :
    read? (text ++ "," ++ rest) = read? text := by
  have hall : ∀ c ∈ text.toList, c != ',' := by
    rw [← List.takeWhile_eq_self_iff]
    exact takeWhile_ne_eq_self h
  have hwhole : (text ++ "," ++ rest).toList.takeWhile (· != ',') = text.toList := by
    rw [String.toList_append, String.toList_append, List.append_assoc,
      takeWhile_run hall (by simp)]
  rw [read?, read?, parts, parts, hwhole, takeWhile_ne_eq_self h]

/-- A header is read up to its first comma. Its first part names the lower transport, the others
denote the rest, and it has no reading just when the first part names none or a pair is spelled
badly. Edits of the pieces after the first do not change the reading. -/
theorem read?_follows_grammar :
    (∀ text rest : String, ',' ∉ text.toList → read? (text ++ "," ++ rest) = read? text) ∧
    (∀ value, ∃ first rest, parts value = first :: rest ∧
      (∀ t, read? value = some t ↔ NamesLower first t.lower ∧ Denotes rest t) ∧
      (read? value = none ↔
        (∀ lower, ¬ NamesLower first lower) ∨ ∃ part ∈ rest, Malformed part)) ∧
    ∀ value value', (parts value).head? = (parts value').head? →
      Relation.EqvGen Edit (pieces value).tail (pieces value').tail →
      read? value = read? value' := by
  refine ⟨fun text rest => read?_before_comma, fun value => ?_,
    fun value value' => read?_eq_of_edits⟩
  obtain ⟨first, rest, h⟩ := exists_parts value
  exact ⟨first, rest, h, fun t => read?_eq_some_iff h, read?_eq_none_iff h⟩

/-- A second transport is passed over; parts that change places, an unknown part put between them
and blanks around a part and around numbers make no difference. -/
theorem read?_follows_grammar_client_ports :
    (',' ∉ "RTP/AVP;unicast".toList ∧
      read? ("RTP/AVP;unicast" ++ "," ++ "RTP/AVP/TCP;interleaved=x") = read? "RTP/AVP;unicast") ∧
    (Relation.EqvGen Edit (pieces "RTP/AVP;unicast;client_port=8000-8001").tail
        (pieces "RTP/AVP ; client_port= 8000 - 8001;mode=play;unicast").tail ∧
      read? "RTP/AVP;unicast;client_port=8000-8001" =
        read? "RTP/AVP ; client_port= 8000 - 8001;mode=play;unicast") := by
  have hcomma : ',' ∉ "RTP/AVP;unicast".toList := by decide
  have hplain : Blanks " ".toList := by
    intro c hc
    obtain rfl := List.mem_singleton.1 hc
    decide
  have hnone : Blanks [] := nofun
  have hpermute : Edit (pieces "RTP/AVP;unicast;client_port=8000-8001").tail
      ([] ++ [portsStart ++ ("8000".toList ++ '-' :: "8001".toList)] ++ ["unicast".toList]) :=
    .permute (.swap ..) fun kind => by cases kind <;> decide
  have hinsert := Edit.insert ([] ++ [portsStart ++ ("8000".toList ++ '-' :: "8001".toList)])
    ["unicast".toList] (fun kind => by cases kind <;> decide :
      ∀ kind, Kind.has kind (trimBlanks "mode=play".toList) = false)
  have hspace := Edit.space [] ["mode=play".toList, "unicast".toList] (.inr rfl)
    (.both (by decide : '-' ∉ "8000".toList) hplain hplain hplain hnone :
      Spaced ("8000".toList ++ '-' :: "8001".toList) _)
  have hpad := Edit.pad [] ["mode=play".toList, "unicast".toList]
    (portsStart ++ ((" ".toList ++ "8000".toList ++ " ".toList) ++
      '-' :: (" ".toList ++ "8001".toList ++ []))) hplain hnone
  have hedits : Relation.EqvGen Edit (pieces "RTP/AVP;unicast;client_port=8000-8001").tail
      (pieces "RTP/AVP ; client_port= 8000 - 8001;mode=play;unicast").tail :=
    .trans _ _ _ (.rel _ _ hpermute) (.trans _ _ _ (.rel _ _ hinsert)
      (.trans _ _ _ (.rel _ _ hspace) (.rel _ _ hpad)))
  exact ⟨⟨hcomma, read?_follows_grammar.1 _ _ hcomma⟩, hedits,
    read?_follows_grammar.2.2 _ _ (by decide) hedits⟩

end RealTimeStreaming.TransportHeader
