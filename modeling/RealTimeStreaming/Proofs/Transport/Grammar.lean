import Mathlib.Data.List.Infix
import RealTimeStreaming.Proofs.Text.Case
import RealTimeStreaming.Proofs.Text.Parts
import RealTimeStreaming.TransportHeader

/-! The grammar of the `Transport` header. Parts are of three kinds, told apart by how they
begin, and a part of no kind says nothing. What the parts after the first say is told without
the fold that reads them: every pair must be spelled well, and of each kind the last part
counts. -/

namespace RealTimeStreaming

def MediaPair.map {α β : Type} (f : α → β) (pair : MediaPair α) : MediaPair β :=
  ⟨f pair.media, f pair.control⟩

theorem MediaPair.map_map {α β γ : Type} (f : α → β) (g : β → γ) (pair : MediaPair α) :
    (pair.map f).map g = pair.map (g ∘ f) :=
  rfl

namespace TransportHeader

open Text

/-! ### Pairs -/

/-- A number up to `max`, with or without blanks around it. -/
def Number (max : Nat) (text : List Char) (n : Nat) : Prop :=
  Decimal (trimBlanks text) n ∧ n ≤ max

/-- The spellings of a pair: two numbers around the first hyphen, or a lone number for itself
and its successor. -/
inductive Spells (max : Nat) : List Char → MediaPair Nat → Prop
  | both {first second : List Char} {media control : Nat} (hcut : '-' ∉ first)
      (hm : Number max first media) (hc : Number max second control) :
      Spells max (first ++ '-' :: second) ⟨media, control⟩
  | lone {text : List Char} {media : Nat} (hcut : '-' ∉ text) (hm : Number max text media)
      (hnext : media + 1 ≤ max) : Spells max text ⟨media, media + 1⟩

theorem readPair?_eq_some_iff {max : Nat} {text : List Char} {pair : MediaPair Nat} :
    readPair? max text = some pair ↔ Spells max text pair := by
  constructor
  · intro h
    unfold readPair? at h
    split at h
    · rename_i first second hcut
      obtain ⟨rfl, hmem⟩ := cutAt_eq_some hcut
      split at h
      · rename_i hm hc
        cases h
        exact .both hmem (readNat_eq_ok_iff.1 hm) (readNat_eq_ok_iff.1 hc)
      · cases h
    · rename_i hcut
      split at h
      · rename_i hm
        split at h
        · cases h
          exact .lone (cutAt_eq_none.1 hcut) (readNat_eq_ok_iff.1 hm) ‹_›
        · cases h
      · cases h
  · intro h
    cases h with
    | both hcut hm hc =>
      rw [readPair?, cutAt_append hcut]
      simp only [readNat_eq_ok_iff.2 hm, readNat_eq_ok_iff.2 hc]
    | lone hcut hm hnext =>
      rw [readPair?, cutAt_eq_none.2 hcut]
      simp only [readNat_eq_ok_iff.2 hm]
      exact if_pos hnext

theorem Spells.unique {max : Nat} {text : List Char} {pair pair' : MediaPair Nat}
    (h : Spells max text pair) (h' : Spells max text pair') : pair = pair' :=
  Option.some.inj ((readPair?_eq_some_iff.2 h).symm.trans (readPair?_eq_some_iff.2 h'))

theorem Spells.le {max : Nat} {text : List Char} {pair : MediaPair Nat} (h : Spells max text pair) :
    pair.media ≤ max ∧ pair.control ≤ max := by
  cases h with
  | both _ hm hc => exact ⟨hm.2, hc.2⟩
  | lone _ hm hnext => exact ⟨hm.2, hnext⟩

/-- A part that begins with `start` and spells a pair of numbers after it. -/
def Gives {α : Type} (start : List Char) (max : Nat) (toNat : α → Nat) (part : List Char)
    (pair : MediaPair α) : Prop :=
  ∃ value, part = start ++ value ∧ Spells max value (pair.map toNat)

section Width

variable {α : Type} {max : Nat} {ofNat : Nat → α} {toNat : α → Nat}

/-- Reading a pair into a type whose values are the numbers up to `max`. -/
theorem map_readPair?_eq_some_iff (hto : ∀ n ≤ max, toNat (ofNat n) = n)
    (hof : ∀ a, ofNat (toNat a) = a) {text : List Char} {pair : MediaPair α} :
    (readPair? max text).map (MediaPair.map ofNat) = some pair ↔
      Spells max text (pair.map toNat) := by
  rw [Option.map_eq_some_iff]
  constructor
  · rintro ⟨numbers, hread, rfl⟩
    have hs := readPair?_eq_some_iff.1 hread
    have hback : (numbers.map ofNat).map toNat = numbers := by
      rw [MediaPair.map_map, MediaPair.map, Function.comp_apply, Function.comp_apply,
        hto _ hs.le.1, hto _ hs.le.2]
    rwa [hback]
  · intro hs
    refine ⟨pair.map toNat, readPair?_eq_some_iff.2 hs, ?_⟩
    rw [MediaPair.map_map, MediaPair.map, Function.comp_apply, Function.comp_apply, hof, hof]

theorem Gives.unique (hof : ∀ a, ofNat (toNat a) = a) {start part : List Char}
    {pair pair' : MediaPair α} (h : Gives start max toNat part pair)
    (h' : Gives start max toNat part pair') : pair = pair' := by
  obtain ⟨value, rfl, hs⟩ := h
  obtain ⟨value', heq, hs'⟩ := h'
  rw [List.append_cancel_left heq] at hs
  have hmap := congrArg (MediaPair.map ofNat) (hs.unique hs')
  rw [MediaPair.map_map, MediaPair.map_map] at hmap
  have hback (q : MediaPair α) : q.map (ofNat ∘ toNat) = q := by
    rw [MediaPair.map, Function.comp_apply, Function.comp_apply, hof, hof]
  rwa [hback, hback] at hmap

end Width

theorem toNat_toUInt8 (n : Nat) (h : n ≤ UInt8.size - 1) : n.toUInt8.toNat = n :=
  UInt8.toNat_ofNat_of_lt' (Nat.lt_of_le_of_lt h (by decide))

theorem toNat_toUInt16 (n : Nat) (h : n ≤ UInt16.size - 1) : n.toUInt16.toNat = n :=
  UInt16.toNat_ofNat_of_lt' (Nat.lt_of_le_of_lt h (by decide))

/-! ### Kinds of parts -/

/-- What a part may be about. -/
inductive Kind where
  | cast
  | channels
  | ports
deriving DecidableEq

def Kind.has : Kind → List Char → Bool
  | .cast, part =>
    sameUpToCase (String.ofList part) "multicast" || sameUpToCase (String.ofList part) "unicast"
  | .channels, part => channelsStart.isPrefixOf part
  | .ports, part => portsStart.isPrefixOf part

theorem Kind.has_cast_iff {part : List Char} :
    Kind.cast.has part ↔ sameUpToCase (String.ofList part) "multicast" ∨
      sameUpToCase (String.ofList part) "unicast" :=
  Bool.or_eq_true_iff

theorem Kind.has_channels_iff {part : List Char} :
    Kind.channels.has part ↔ ∃ value, part = channelsStart ++ value :=
  List.isPrefixOf_iff_prefix.trans (exists_congr fun _ => eq_comm)

theorem Kind.has_ports_iff {part : List Char} :
    Kind.ports.has part ↔ ∃ value, part = portsStart ++ value :=
  List.isPrefixOf_iff_prefix.trans (exists_congr fun _ => eq_comm)

/-- The letters, in lower case, that the parts of a kind begin with. -/
def Kind.letters : Kind → List Char
  | .cast => ['m', 'u']
  | .channels => ['i']
  | .ports => ['c']

theorem Kind.head_of_has {kind : Kind} {part : List Char} (h : kind.has part) :
    ∃ letter ∈ kind.letters, (part.map Char.toLower).head? = some letter := by
  cases kind with
  | cast =>
    rw [has_cast_iff, sameUpToCase_iff, sameUpToCase_iff, String.toList_ofList] at h
    obtain hm | hu := h
    · exact ⟨'m', by decide, by rw [hm]; decide⟩
    · exact ⟨'u', by decide, by rw [hu]; decide⟩
  | channels =>
    obtain ⟨value, rfl⟩ := has_channels_iff.1 h
    exact ⟨'i', by decide, rfl⟩
  | ports =>
    obtain ⟨value, rfl⟩ := has_ports_iff.1 h
    exact ⟨'c', by decide, rfl⟩

/-- No part is of two kinds. -/
theorem Kind.unique {kind kind' : Kind} {part : List Char} (h : kind.has part)
    (h' : kind'.has part) : kind = kind' := by
  obtain ⟨letter, hmem, hhead⟩ := head_of_has h
  obtain ⟨letter', hmem', hhead'⟩ := head_of_has h'
  obtain rfl := Option.some.inj (hhead.symm.trans hhead')
  cases kind <;> cases kind' <;> simp_all [letters]

/-! ### One part -/

variable {t t' : TransportHeader} {part : List Char}

/-- A part that announces a pair and does not spell one. -/
inductive Malformed : List Char → Prop
  | channels {value : List Char} (h : ∀ pair, ¬ Spells (UInt8.size - 1) value pair) :
      Malformed (channelsStart ++ value)
  | ports {value : List Char} (h : ∀ pair, ¬ Spells (UInt16.size - 1) value pair) :
      Malformed (portsStart ++ value)

/-- What a part changes. -/
inductive Adds (t : TransportHeader) (part : List Char) : TransportHeader → Prop
  | multicast (h : sameUpToCase (String.ofList part) "multicast") :
      Adds t part { t with unicast := false }
  | unicast (h : sameUpToCase (String.ofList part) "unicast") :
      Adds t part { t with unicast := true }
  | channels {pair : MediaPair UInt8}
      (h : Gives channelsStart (UInt8.size - 1) UInt8.toNat part pair) :
      Adds t part { t with channels := some pair }
  | ports {pair : MediaPair UInt16}
      (h : Gives portsStart (UInt16.size - 1) UInt16.toNat part pair) :
      Adds t part { t with ports := some pair }
  | unknown (h : ∀ kind, Kind.has kind part = false) : Adds t part t

theorem part_cases (part : List Char) :
    sameUpToCase (String.ofList part) "multicast" ∨ sameUpToCase (String.ofList part) "unicast" ∨
      (∃ value, part = channelsStart ++ value) ∨ (∃ value, part = portsStart ++ value) ∨
      ∀ kind, Kind.has kind part = false := by
  by_cases hcast : Kind.cast.has part
  · obtain h | h := Kind.has_cast_iff.1 hcast
    · exact .inl h
    · exact .inr (.inl h)
  · by_cases hchannels : Kind.channels.has part
    · exact .inr (.inr (.inl (Kind.has_channels_iff.1 hchannels)))
    · by_cases hports : Kind.ports.has part
      · exact .inr (.inr (.inr (.inl (Kind.has_ports_iff.1 hports))))
      · refine .inr (.inr (.inr (.inr fun kind => ?_)))
        cases kind with
        | cast => exact Bool.eq_false_iff.2 hcast
        | channels => exact Bool.eq_false_iff.2 hchannels
        | ports => exact Bool.eq_false_iff.2 hports

theorem not_multicast_of_unicast (h : sameUpToCase (String.ofList part) "unicast") :
    ¬ sameUpToCase (String.ofList part) "multicast" := by
  rw [sameUpToCase_iff] at h ⊢
  rw [h]
  decide

theorem not_cast_of_has {kind : Kind} (h : kind.has part) (hne : kind ≠ .cast) :
    ¬ sameUpToCase (String.ofList part) "multicast" ∧
      ¬ sameUpToCase (String.ofList part) "unicast" := by
  rw [← not_or, ← Kind.has_cast_iff]
  exact fun hcast => hne (Kind.unique h hcast)

theorem addPart_multicast (h : sameUpToCase (String.ofList part) "multicast") :
    addPart t part = some { t with unicast := false } :=
  if_pos h

theorem addPart_unicast (h : sameUpToCase (String.ofList part) "unicast") :
    addPart t part = some { t with unicast := true } := by
  rw [addPart, if_neg (not_multicast_of_unicast h), if_pos h]

theorem addPart_channels (t : TransportHeader) (value : List Char) :
    addPart t (channelsStart ++ value) =
      ((readPair? (UInt8.size - 1) value).map (MediaPair.map Nat.toUInt8)).map fun pair =>
        { t with channels := some pair } := by
  obtain ⟨hm, hu⟩ := not_cast_of_has (Kind.has_channels_iff.2 ⟨value, rfl⟩) (by decide)
  rw [addPart, if_neg hm, if_neg hu, afterStart?_eq_some.2 rfl, Option.map_map]
  rfl

theorem addPart_ports (t : TransportHeader) (value : List Char) :
    addPart t (portsStart ++ value) =
      ((readPair? (UInt16.size - 1) value).map (MediaPair.map Nat.toUInt16)).map fun pair =>
        { t with ports := some pair } := by
  have hports : Kind.ports.has (portsStart ++ value) := Kind.has_ports_iff.2 ⟨value, rfl⟩
  obtain ⟨hm, hu⟩ := not_cast_of_has hports (by decide)
  have hchannels : afterStart? channelsStart (portsStart ++ value) = none := rfl
  rw [addPart, if_neg hm, if_neg hu, hchannels, afterStart?_eq_some.2 rfl, Option.map_map]
  rfl

theorem addPart_unknown (h : ∀ kind, Kind.has kind part = false) : addPart t part = some t := by
  have hcast : ¬ (sameUpToCase (String.ofList part) "multicast" ∨
      sameUpToCase (String.ofList part) "unicast") := by
    rw [← Kind.has_cast_iff, h]
    decide
  have hstart {start : List Char} (hs : start.isPrefixOf part = false) :
      afterStart? start part = none := by
    rw [afterStart?_eq_none_iff, ← List.isPrefixOf_iff_prefix, hs]
    decide
  rw [not_or] at hcast
  rw [addPart, if_neg hcast.1, if_neg hcast.2, hstart (h .channels), hstart (h .ports)]

theorem adds_of_addPart (h : addPart t part = some t') : Adds t part t' := by
  obtain hm | hu | ⟨value, rfl⟩ | ⟨value, rfl⟩ | hnone := part_cases part
  · obtain rfl := Option.some.inj ((addPart_multicast hm).symm.trans h)
    exact .multicast hm
  · obtain rfl := Option.some.inj ((addPart_unicast hu).symm.trans h)
    exact .unicast hu
  · rw [addPart_channels, Option.map_eq_some_iff] at h
    obtain ⟨pair, hread, rfl⟩ := h
    exact .channels ⟨value, rfl,
      (map_readPair?_eq_some_iff toNat_toUInt8 fun _ => UInt8.ofNat_toNat).1 hread⟩
  · rw [addPart_ports, Option.map_eq_some_iff] at h
    obtain ⟨pair, hread, rfl⟩ := h
    exact .ports ⟨value, rfl,
      (map_readPair?_eq_some_iff toNat_toUInt16 fun _ => UInt16.ofNat_toNat).1 hread⟩
  · obtain rfl := Option.some.inj ((addPart_unknown hnone).symm.trans h)
    exact .unknown hnone

theorem readPair?_eq_none_iff {max : Nat} {text : List Char} :
    readPair? max text = none ↔ ∀ pair, ¬ Spells max text pair := by
  rw [Option.eq_none_iff_forall_ne_some]
  exact forall_congr' fun pair => readPair?_eq_some_iff.not

theorem addPart_eq_none_iff : addPart t part = none ↔ Malformed part := by
  constructor
  · intro h
    obtain hm | hu | ⟨value, rfl⟩ | ⟨value, rfl⟩ | hnone := part_cases part
    · rw [addPart_multicast hm] at h
      cases h
    · rw [addPart_unicast hu] at h
      cases h
    · rw [addPart_channels, Option.map_eq_none_iff, Option.map_eq_none_iff] at h
      exact .channels (readPair?_eq_none_iff.1 h)
    · rw [addPart_ports, Option.map_eq_none_iff, Option.map_eq_none_iff] at h
      exact .ports (readPair?_eq_none_iff.1 h)
    · rw [addPart_unknown hnone] at h
      cases h
  · intro h
    cases h with
    | channels h =>
      rw [addPart_channels, readPair?_eq_none_iff.2 h, Option.map_none, Option.map_none]
    | ports h =>
      rw [addPart_ports, readPair?_eq_none_iff.2 h, Option.map_none, Option.map_none]

theorem Malformed.has (h : Malformed part) : ∃ kind, Kind.has kind part := by
  cases h with
  | channels => exact ⟨.channels, Kind.has_channels_iff.2 ⟨_, rfl⟩⟩
  | ports => exact ⟨.ports, Kind.has_ports_iff.2 ⟨_, rfl⟩⟩

/-! ### All parts -/

variable {rest : List (List Char)}

/-- The last part of a kind. -/
def lastOf (kind : Kind) (rest : List (List Char)) : Option (List Char) :=
  (rest.filter kind.has).getLast?

/-- What the parts after the first say of a transport. -/
structure Denotes (rest : List (List Char)) (t : TransportHeader) : Prop where
  readable : ∀ part ∈ rest, ¬ Malformed part
  multicast_iff : t.unicast = false ↔
    ∃ last ∈ lastOf .cast rest, sameUpToCase (String.ofList last) "multicast"
  channels : Option.Rel (Gives channelsStart (UInt8.size - 1) UInt8.toNat)
    (lastOf .channels rest) t.channels
  ports : Option.Rel (Gives portsStart (UInt16.size - 1) UInt16.toNat)
    (lastOf .ports rest) t.ports

theorem lastOf_concat_of_has {kind : Kind} (h : kind.has part) (rest : List (List Char)) :
    lastOf kind (rest ++ [part]) = some part := by
  rw [lastOf, List.filter_append, List.getLast?_append, List.filter_cons_of_pos h]
  rfl

theorem lastOf_concat_of_not_has {kind : Kind} (h : kind.has part = false)
    (rest : List (List Char)) : lastOf kind (rest ++ [part]) = lastOf kind rest := by
  rw [lastOf, List.filter_append, List.getLast?_append,
    List.filter_cons_of_neg (by rw [h]; decide)]
  rfl

/-- A part counts as the last of its kind and leaves the last of the other kinds alone. -/
theorem lastOf_concat_of_ne {kind kind' : Kind} (h : kind.has part) (hne : kind' ≠ kind)
    (rest : List (List Char)) : lastOf kind' (rest ++ [part]) = lastOf kind' rest :=
  lastOf_concat_of_not_has (Bool.eq_false_iff.2 fun h' => hne (Kind.unique h' h)) rest

theorem Adds.lower_eq (h : Adds t part t') : t'.lower = t.lower := by
  cases h <;> rfl

/-- One more part. -/
theorem Denotes.concat (hd : Denotes rest t) (h : addPart t part = some t') :
    Denotes (rest ++ [part]) t' := by
  have hpart : ¬ Malformed part := by
    rw [← addPart_eq_none_iff (t := t), h]
    exact Option.some_ne_none t'
  have hreadable : ∀ other ∈ rest ++ [part], ¬ Malformed other :=
    List.forall_mem_append.2 ⟨hd.readable, List.forall_mem_singleton.2 hpart⟩
  cases adds_of_addPart h with
  | multicast hm =>
    have hk := Kind.has_cast_iff.2 (.inl hm)
    refine ⟨hreadable, ?_, ?_, ?_⟩
    · rw [lastOf_concat_of_has hk]
      exact iff_of_true rfl ⟨part, rfl, hm⟩
    · rw [lastOf_concat_of_ne hk (by decide)]
      exact hd.channels
    · rw [lastOf_concat_of_ne hk (by decide)]
      exact hd.ports
  | unicast hu =>
    have hk := Kind.has_cast_iff.2 (.inr hu)
    refine ⟨hreadable, ?_, ?_, ?_⟩
    · rw [lastOf_concat_of_has hk]
      refine iff_of_false nofun ?_
      rintro ⟨last, hlast, hm⟩
      obtain rfl := Option.some.inj hlast
      exact not_multicast_of_unicast hu hm
    · rw [lastOf_concat_of_ne hk (by decide)]
      exact hd.channels
    · rw [lastOf_concat_of_ne hk (by decide)]
      exact hd.ports
  | channels hg =>
    have hk := Kind.has_channels_iff.2 (hg.imp fun _ h => h.1)
    refine ⟨hreadable, ?_, ?_, ?_⟩
    · rw [lastOf_concat_of_ne hk (by decide)]
      exact hd.multicast_iff
    · rw [lastOf_concat_of_has hk]
      exact .some hg
    · rw [lastOf_concat_of_ne hk (by decide)]
      exact hd.ports
  | ports hg =>
    have hk := Kind.has_ports_iff.2 (hg.imp fun _ h => h.1)
    refine ⟨hreadable, ?_, ?_, ?_⟩
    · rw [lastOf_concat_of_ne hk (by decide)]
      exact hd.multicast_iff
    · rw [lastOf_concat_of_ne hk (by decide)]
      exact hd.channels
    · rw [lastOf_concat_of_has hk]
      exact .some hg
  | unknown hnone =>
    refine ⟨hreadable, ?_, ?_, ?_⟩ <;> rw [lastOf_concat_of_not_has (hnone _)]
    · exact hd.multicast_iff
    · exact hd.channels
    · exact hd.ports

theorem rel_unique {α β : Type} {r : α → β → Prop} (hr : ∀ a b b', r a b → r a b' → b = b')
    {a : Option α} {b b' : Option β} (h : Option.Rel r a b) (h' : Option.Rel r a b') : b = b' := by
  cases h with
  | none =>
    cases h'
    rfl
  | some hab =>
    cases h' with
    | some hab' => rw [hr _ _ _ hab hab']

theorem Denotes.unique (h : Denotes rest t) (h' : Denotes rest t') (hlower : t.lower = t'.lower) :
    t = t' := by
  have hcast := h.multicast_iff.trans h'.multicast_iff.symm
  have hchannels := rel_unique (fun _ _ _ h h' => h.unique (fun _ => UInt8.ofNat_toNat) h')
    h.channels h'.channels
  have hports := rel_unique (fun _ _ _ h h' => h.unique (fun _ => UInt16.ofNat_toNat) h')
    h.ports h'.ports
  cases t
  cases t'
  simp_all

theorem foldlM_eq_none_iff : rest.foldlM addPart t = none ↔ ∃ part ∈ rest, Malformed part := by
  induction rest generalizing t with
  | nil => simp
  | cons part rest ih =>
    rw [List.foldlM_cons, List.exists_mem_cons_iff, ← addPart_eq_none_iff (t := t)]
    cases addPart t part with
    | none => simp
    | some t' => simp [ih]

theorem denotes_of_foldlM {lower : LowerTransport}
    (h : rest.foldlM addPart { lower := lower } = some t) : t.lower = lower ∧ Denotes rest t := by
  -- the last part is read last, so the parts grow at the end
  induction rest using List.reverseRecOn generalizing t with
  | nil =>
    obtain rfl := Option.some.inj h
    exact ⟨rfl, by simp, by simp [lastOf], .none, .none⟩
  | append_singleton rest part ih =>
    rw [List.foldlM_append] at h
    obtain ⟨t', hrest, hpart⟩ := Option.bind_eq_some_iff.1 h
    simp only [List.foldlM_cons, List.foldlM_nil, bind_pure] at hpart
    obtain ⟨hlower, hd⟩ := ih hrest
    exact ⟨(adds_of_addPart hpart).lower_eq.trans hlower, hd.concat hpart⟩

theorem foldlM_eq_some_iff {lower : LowerTransport} :
    rest.foldlM addPart { lower := lower } = some t ↔ t.lower = lower ∧ Denotes rest t := by
  refine ⟨denotes_of_foldlM, ?_⟩
  rintro ⟨hlower, hd⟩
  cases hread : rest.foldlM addPart { lower := lower } with
  | none =>
    obtain ⟨part, hmem, hm⟩ := foldlM_eq_none_iff.1 hread
    exact absurd hm (hd.readable part hmem)
  | some t' =>
    obtain ⟨hlower', hd'⟩ := denotes_of_foldlM hread
    rw [hd'.unique hd (hlower'.trans hlower.symm)]

/-! ### The whole header -/

/-- The names of the protocol and profile, in any case. -/
inductive NamesLower (part : List Char) : LowerTransport → Prop
  | datagrams (h : sameUpToCase (String.ofList part) "RTP/AVP" ∨
      sameUpToCase (String.ofList part) "RTP/AVP/UDP") : NamesLower part .udp
  | frames (h : sameUpToCase (String.ofList part) "RTP/AVP/TCP") : NamesLower part .tcp

theorem readLower?_eq_some_iff {lower : LowerTransport} :
    readLower? part = some lower ↔ NamesLower part lower := by
  rw [readLower?]
  simp only [ofList_map_toUpper_eq_iff part "RTP/AVP" (by decide),
    ofList_map_toUpper_eq_iff part "RTP/AVP/UDP" (by decide),
    ofList_map_toUpper_eq_iff part "RTP/AVP/TCP" (by decide)]
  constructor
  · intro h
    split at h
    · cases h
      exact .datagrams ‹_›
    · split at h
      · cases h
        exact .frames ‹_›
      · cases h
  · intro h
    cases h with
    | datagrams h => exact if_pos h
    | frames h =>
      rw [if_neg, if_pos h]
      rw [sameUpToCase_iff] at h
      rw [sameUpToCase_iff, sameUpToCase_iff, h]
      decide

theorem exists_parts (value : String) : ∃ first rest, parts value = first :: rest := by
  have hne : parts value ≠ [] := by
    rw [parts, Ne, List.map_eq_nil_iff]
    exact List.splitOn_ne_nil ';' _
  exact List.exists_cons_of_ne_nil hne

variable {value : String} {first : List Char}

theorem read?_of_parts (h : parts value = first :: rest) :
    read? value = (readLower? first).bind fun lower => rest.foldlM addPart { lower := lower } := by
  rw [read?, h]
  rfl

theorem read?_eq_some_iff (h : parts value = first :: rest) :
    read? value = some t ↔ NamesLower first t.lower ∧ Denotes rest t := by
  rw [read?_of_parts h, Option.bind_eq_some_iff]
  simp only [readLower?_eq_some_iff, foldlM_eq_some_iff]
  constructor
  · rintro ⟨lower, hn, rfl, hd⟩
    exact ⟨hn, hd⟩
  · rintro ⟨hn, hd⟩
    exact ⟨t.lower, hn, rfl, hd⟩

theorem read?_eq_none_iff (h : parts value = first :: rest) :
    read? value = none ↔
      (∀ lower, ¬ NamesLower first lower) ∨ ∃ part ∈ rest, Malformed part := by
  rw [read?_of_parts h]
  cases hl : readLower? first with
  | none =>
    refine iff_of_true rfl (.inl fun lower hn => ?_)
    rw [readLower?_eq_some_iff.2 hn] at hl
    cases hl
  | some lower =>
    have hn := readLower?_eq_some_iff.1 hl
    rw [Option.bind_some, foldlM_eq_none_iff, or_iff_right fun hno => hno lower hn]

end TransportHeader

end RealTimeStreaming
