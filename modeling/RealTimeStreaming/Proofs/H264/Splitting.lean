import Mathlib.Data.List.Infix
import RealTimeStreaming.H264.AnnexB
import RealTimeStreaming.Proofs.Text.Parts

/-! Splitting a byte stream at its start codes undoes joining units by them. A start code ends in
its only one, so none reaches from a stretch into the code behind it: a stream has just one way to
be cut at the codes, whatever zero bytes the stretches end in. -/

namespace RealTimeStreaming.H264

variable {code : StartCode} {data before after : Bytes}

/-! ### The first start code -/

namespace StartCode

theorem dropLast_append (code : StartCode) : code.bytes.dropLast ++ [1] = code.bytes := by
  cases code <;> rfl

theorem eq_zero_of_mem_dropLast {b : UInt8} (h : b ∈ code.bytes.dropLast) : b = 0 := by
  cases code <;> simpa [bytes] using h

/-- No start code ends in the zero bytes of another one. -/
theorem infix_append_dropLast_iff :
    code.bytes <:+: before ++ code.bytes.dropLast ↔ code.bytes <:+: before := by
  refine ⟨?_, fun h => h.trans (List.infix_append' [] before _)⟩
  rintro ⟨l, r, heq⟩
  obtain ⟨zeros, hbefore, hr⟩ | ⟨zeros, hl, hzeros⟩ := List.append_eq_append_iff.1 heq
  · exact ⟨l, zeros, hbefore.symm⟩
  · obtain rfl | ⟨init, last, rfl⟩ := List.eq_nil_or_concat zeros
    · rw [List.append_nil] at hl
      exact ⟨l, [], by rw [List.append_nil, hl]⟩
    · have hmem : last ∈ code.bytes.dropLast := by
        rw [hzeros]
        simp
      rw [← code.dropLast_append, List.concat_eq_append, ← List.append_assoc,
        ← List.append_assoc] at hl
      have hone := List.append_inj_right' hl rfl
      simp [eq_zero_of_mem_dropLast hmem] at hone

theorem cutAfter_eq (passed : Bytes) :
    code.cutAfter passed data =
      (code.cut? data).map fun cut => (passed.reverse ++ cut.1, cut.2) := by
  induction data generalizing passed with
  | nil => rfl
  | cons b rest ih =>
    unfold cut? cutAfter
    cases Text.afterStart? code.bytes (b :: rest) with
    | some after => simp
    | none =>
      simp only
      rw [ih, ih [b], Option.map_map]
      congr 1
      funext cut
      simp

theorem cut?_of_starts (h : data = code.bytes ++ after) : code.cut? data = some ([], after) := by
  have hstart := Text.afterStart?_eq_some.2 h
  cases data with
  | nil => cases code <;> simp [bytes] at h
  | cons b rest =>
    rw [cut?, cutAfter, hstart]
    rfl

theorem cut?_cons {b : UInt8} (h : ¬ code.bytes <+: b :: data) :
    code.cut? (b :: data) = (code.cut? data).map fun cut => (b :: cut.1, cut.2) := by
  rw [cut?, cutAfter, Text.afterStart?_eq_none_iff.2 h]
  exact cutAfter_eq [b]

/-- A start code that begins in a stretch without one is the code behind the stretch. -/
theorem eq_nil_of_starts (h : code.bytes <+: before ++ (code.bytes ++ after))
    (hfree : ¬ code.bytes <:+: before) : before = [] := by
  by_contra hne
  have hpos := List.length_pos_iff.2 hne
  have hlast := congrArg List.length code.dropLast_append
  rw [List.length_append, List.length_singleton] at hlast
  refine hfree (infix_append_dropLast_iff.1 (List.IsPrefix.isInfix ?_))
  refine List.prefix_of_prefix_length_le h ⟨[1] ++ after, ?_⟩ ?_
  · rw [List.append_assoc, ← List.append_assoc _ [1], dropLast_append]
  · rw [List.length_append]
    omega

/-- A stream is cut at its first start code. -/
theorem cut?_eq_some_iff :
    code.cut? data = some (before, after) ↔
      data = before ++ (code.bytes ++ after) ∧ ¬ code.bytes <:+: before := by
  induction data generalizing before with
  | nil => cases code <;> simp [cut?, cutAfter, bytes]
  | cons b rest ih =>
    by_cases hstart : code.bytes <+: b :: rest
    · obtain ⟨behind, hbehind⟩ := hstart
      rw [cut?_of_starts hbehind.symm, Option.some.injEq, Prod.mk.injEq]
      constructor
      · rintro ⟨rfl, rfl⟩
        exact ⟨hbehind.symm, by cases code <;> decide⟩
      · rintro ⟨hdata, hfree⟩
        rw [← hbehind] at hdata
        have hnil := eq_nil_of_starts ⟨behind, hdata⟩ hfree
        rw [hnil, List.nil_append, List.append_cancel_left_eq] at hdata
        exact ⟨hnil.symm, hdata⟩
    · rw [cut?_cons hstart, Option.map_eq_some_iff]
      constructor
      · rintro ⟨⟨before, after⟩, hcut, heq⟩
        cases heq
        obtain ⟨rfl, hfree⟩ := ih.1 hcut
        refine ⟨rfl, fun hinfix => ?_⟩
        obtain hstart' | hinfix := List.infix_cons_iff.1 hinfix
        · exact hstart (hstart'.trans ⟨_, rfl⟩)
        · exact hfree hinfix
      · rintro ⟨hdata, hfree⟩
        cases before with
        | nil => exact absurd ⟨after, hdata.symm⟩ hstart
        | cons b' before =>
          rw [List.cons_append, List.cons.injEq] at hdata
          obtain ⟨rfl, hrest⟩ := hdata
          refine ⟨(before, after), ih.2 ⟨hrest, fun hinfix => hfree ?_⟩, rfl⟩
          exact List.infix_cons hinfix

theorem cut?_eq_none_iff : code.cut? data = none ↔ ¬ code.bytes <:+: data := by
  induction data with
  | nil => cases code <;> simp [cut?, cutAfter, bytes]
  | cons b rest ih =>
    rw [List.infix_cons_iff, not_or]
    by_cases hstart : code.bytes <+: b :: rest
    · obtain ⟨behind, hbehind⟩ := hstart
      rw [cut?_of_starts hbehind.symm]
      simp [← hbehind]
    · rw [cut?_cons hstart, Option.map_eq_none_iff, ih]
      simp [hstart]

/-! ### The width of the codes -/

theorem detectAfter_cons {b : UInt8} (zeroBefore : Bool) (h : ¬ three.bytes <+: b :: data) :
    detectAfter zeroBefore (b :: data) = detectAfter (b == 0) data := by
  rw [detectAfter]
  rintro rest rfl rfl
  exact h ⟨rest, rfl⟩

theorem detectAfter_of_first (zeroBefore : Bool) (h : ¬ three.bytes <:+: before) :
    detectAfter zeroBefore (before ++ (three.bytes ++ after)) =
      some (if (before.getLast?.map (· == 0)).getD zeroBefore then four else three) := by
  induction before generalizing zeroBefore with
  | nil => rfl
  | cons b before ih =>
    have hstart : ¬ three.bytes <+: b :: (before ++ (three.bytes ++ after)) := by
      intro hstart
      have hnil : b :: before = [] := eq_nil_of_starts hstart h
      cases hnil
    rw [List.cons_append, detectAfter_cons zeroBefore hstart,
      ih (b == 0) fun hinfix => h (List.infix_cons hinfix)]
    cases before with
    | nil => rfl
    | cons b' before => rw [List.getLast?_cons_cons, List.getLast?_eq_some_getLast (by simp)]; rfl

theorem detectAfter_eq_none (zeroBefore : Bool) (h : ¬ three.bytes <:+: data) :
    detectAfter zeroBefore data = none := by
  induction data generalizing zeroBefore with
  | nil => rfl
  | cons b rest ih =>
    rw [List.infix_cons_iff, not_or] at h
    rw [detectAfter_cons zeroBefore h.1, ih (b == 0) h.2]

end StartCode

/-! ### Streams as stretches -/

/-- The code in front of each stretch. -/
def StartCode.joined (code : StartCode) (stretches : List Bytes) : Bytes :=
  stretches.flatMap (code.bytes ++ ·)

/-- A stream cut at all its start codes: what stands before the first one, and the stretch behind
each. -/
structure Cuts (code : StartCode) (data before : Bytes) (stretches : List Bytes) : Prop where
  joins : data = before ++ code.joined stretches
  ne_nil : stretches ≠ []
  before_free : ¬ code.bytes <:+: before ++ code.bytes.dropLast
  free : ∀ stretch ∈ stretches, ¬ code.bytes <:+: stretch

section

variable {first first' : Bytes} {more more' : List Bytes}

@[simp] theorem StartCode.joined_nil : code.joined [] = [] := rfl

theorem StartCode.joined_cons (stretch : Bytes) :
    code.joined (stretch :: more) = code.bytes ++ (stretch ++ code.joined more) := by
  rw [joined, List.flatMap_cons, List.append_assoc]
  rfl

theorem StartCode.cut?_joined_cons (h : ¬ code.bytes <:+: first) (stretch : Bytes) :
    code.cut? (first ++ code.joined (stretch :: more)) =
      some (first, stretch ++ code.joined more) :=
  cut?_eq_some_iff.2 ⟨by rw [joined_cons], h⟩

/-- Any bytes are stretches with codes between them. -/
theorem exists_stretches (code : StartCode) (data : Bytes) :
    ∃ first more, data = first ++ code.joined more ∧
      ∀ stretch ∈ first :: more, ¬ code.bytes <:+: stretch := by
  cases hcut : code.cut? data with
  | none =>
    refine ⟨data, [], by simp, ?_⟩
    simpa using StartCode.cut?_eq_none_iff.1 hcut
  | some cut =>
    obtain ⟨first, after⟩ := cut
    have hlt := StartCode.length_cutAfter hcut
    obtain ⟨hdata, hfree⟩ := StartCode.cut?_eq_some_iff.1 hcut
    obtain ⟨second, more, rfl, hmore⟩ := exists_stretches code after
    refine ⟨first, second :: more, by rw [hdata, StartCode.joined_cons], ?_⟩
    rw [List.forall_mem_cons]
    exact ⟨hfree, hmore⟩
termination_by data.length

/-- There is one way to do so. -/
theorem stretches_unique (h : ∀ stretch ∈ first :: more, ¬ code.bytes <:+: stretch)
    (h' : ∀ stretch ∈ first' :: more', ¬ code.bytes <:+: stretch)
    (heq : first ++ code.joined more = first' ++ code.joined more') :
    first = first' ∧ more = more' := by
  rw [List.forall_mem_cons] at h h'
  have hcut := congrArg code.cut? heq
  induction more generalizing first first' more' with
  | nil =>
    cases more' with
    | nil => simpa using heq
    | cons stretch more' =>
      rw [StartCode.joined_nil, List.append_nil, StartCode.cut?_eq_none_iff.2 h.1,
        StartCode.cut?_joined_cons h'.1] at hcut
      cases hcut
  | cons stretch more ih =>
    rw [StartCode.cut?_joined_cons h.1] at hcut
    cases more' with
    | nil =>
      rw [StartCode.joined_nil, List.append_nil, StartCode.cut?_eq_none_iff.2 h'.1] at hcut
      cases hcut
    | cons stretch' more' =>
      rw [StartCode.cut?_joined_cons h'.1, Option.some.injEq, Prod.mk.injEq] at hcut
      obtain ⟨rfl, hrest⟩ := hcut
      rw [List.forall_mem_cons] at h h'
      obtain ⟨rfl, rfl⟩ := ih h.2 h'.2 hrest (congrArg code.cut? hrest)
      exact ⟨rfl, rfl⟩

end

/-! ### Taking units off -/

namespace UnitReader

variable {r : UnitReader}

/-- What the reader gives when asked for the unit number `n`, counted from zero. -/
def answer (r : UnitReader) : Nat → Option NalUnit
  | 0 => r.next.1
  | n + 1 => r.next.2.answer n

theorem unitsAfter_of_next {unit : NalUnit} {after : UnitReader} (h : r.next = (some unit, after))
    (taken : List NalUnit) : r.unitsAfter taken = after.unitsAfter (unit :: taken) := by
  rw [unitsAfter]
  split <;> rename_i hnext <;> cases h.symm.trans hnext
  rfl

theorem unitsAfter_of_end {after : UnitReader} (h : r.next = (none, after))
    (taken : List NalUnit) : r.unitsAfter taken = taken.reverse := by
  rw [unitsAfter]
  split <;> rename_i hnext <;> cases h.symm.trans hnext
  rfl

theorem unitsAfter_eq (taken : List NalUnit) (r : UnitReader) :
    r.unitsAfter taken = taken.reverse ++ r.units := by
  rcases hnext : r.next with ⟨_ | unit, after⟩
  · rw [units, unitsAfter_of_end hnext, unitsAfter_of_end hnext, List.reverse_nil, List.append_nil]
  · have hlt := length_next_lt hnext
    rw [units, unitsAfter_of_next hnext, unitsAfter_of_next hnext,
      unitsAfter_eq (unit :: taken) after, unitsAfter_eq [unit] after]
    simp
termination_by r.rest.length

theorem units_of_next {unit : NalUnit} {after : UnitReader} (h : r.next = (some unit, after)) :
    r.units = unit :: after.units := by
  rw [units, unitsAfter_of_next h, unitsAfter_eq]
  rfl

theorem units_of_end {after : UnitReader} (h : r.next = (none, after)) : r.units = [] :=
  unitsAfter_of_end h []

/-- A reader that has come to the end stays there. -/
theorem rest_of_end {after : UnitReader} (h : r.next = (none, after)) : after.rest = [] := by
  fun_induction next r with
  | case1 r hrest =>
    cases h
    exact hrest
  | case2 => cases h
  | case3 r hne hunit ih => exact ih h

theorem units_of_rest_eq_nil (h : r.rest = []) : r.units = [] := by
  have hnext : r.next = (none, r) := by rw [next, dif_pos h]
  exact units_of_end hnext

/-- The answers are the units in order, and nothing for ever after the last of them. -/
theorem answer_eq_getElem? (r : UnitReader) (n : Nat) : r.answer n = r.units[n]? := by
  induction n generalizing r with
  | zero =>
    rcases hnext : r.next with ⟨_ | unit, after⟩
    · rw [answer, hnext, units_of_end hnext]
      rfl
    · rw [answer, hnext, units_of_next hnext]
      rfl
  | succ n ih =>
    rw [answer, ih]
    rcases hnext : r.next with ⟨_ | unit, after⟩
    · rw [units_of_rest_eq_nil (rest_of_end hnext), units_of_end hnext]
      rfl
    · rw [units_of_next hnext, List.getElem?_cons_succ]

/-- The stretch at hand is a unit unless it is empty; the others are behind it. -/
theorem units_of_ne_nil (h : r.rest ≠ []) :
    r.units = (NalUnit.ofBytes? r.stretch.1).toList ++
      { r with rest := r.stretch.2 : UnitReader }.units := by
  cases hunit : NalUnit.ofBytes? r.stretch.1 with
  | some unit =>
    have hnext : r.next = (some unit, { r with rest := r.stretch.2 }) := by
      rw [next, dif_neg h, hunit]
    rw [units_of_next hnext]
    rfl
  | none =>
    have hnext : r.next = { r with rest := r.stretch.2 : UnitReader }.next := by
      rw [next, dif_neg h, hunit]
    rcases hlater : { r with rest := r.stretch.2 : UnitReader }.next with ⟨_ | unit, after⟩
    · rw [units_of_end (hnext.trans hlater), units_of_end hlater]
      rfl
    · rw [units_of_next (hnext.trans hlater), units_of_next hlater]
      rfl

theorem units_of_stretches {first : Bytes} {more : List Bytes}
    (h : ∀ stretch ∈ first :: more, ¬ r.code.bytes <:+: stretch)
    (hrest : r.rest = first ++ r.code.joined more) :
    r.units = (first :: more).filterMap NalUnit.ofBytes? := by
  rw [List.forall_mem_cons] at h
  induction more generalizing r first with
  | nil =>
    rw [StartCode.joined_nil, List.append_nil] at hrest
    subst hrest
    by_cases hnil : r.rest = []
    · rw [units_of_rest_eq_nil hnil, hnil]
      rfl
    · have hstretch : r.stretch = (r.rest, []) := by
        rw [stretch, StartCode.cut?_eq_none_iff.2 h.1]
        rfl
      rw [units_of_ne_nil hnil, hstretch, units_of_rest_eq_nil rfl,
        List.filterMap_eq_flatMap_toList]
      rfl
  | cons second more ih =>
    have hnil : r.rest ≠ [] := by
      rw [hrest, StartCode.joined_cons]
      cases r.code <;> simp [StartCode.bytes]
    have hstretch : r.stretch = (first, second ++ r.code.joined more) := by
      rw [stretch, hrest, StartCode.cut?_joined_cons h.1]
      rfl
    have hlater := ih (r := { r with rest := second ++ r.code.joined more })
      (List.forall_mem_cons.1 h.2) rfl
    rw [units_of_ne_nil hnil, hstretch, hlater, List.filterMap_eq_flatMap_toList,
      List.filterMap_eq_flatMap_toList, List.flatMap_cons (x := first)]

theorem ofData_of_cut? {code : StartCode} {data before after : Bytes}
    (hd : StartCode.detect data = some code) (hcut : code.cut? data = some (before, after)) :
    ofData data = { code, rest := after } := by
  simp only [ofData, hd, hcut, Option.map_some, Option.getD_some]

end UnitReader

/-! ### Splitting and joining -/

/-- A stream is cut at the codes of the width that is found in it, and this in one way. -/
theorem cuts_of_detect (hd : StartCode.detect data = some code)
    (hcut : code.cut? data = some (before, after)) :
    ∃ stretches, Cuts code data before stretches ∧
      (∀ before' stretches', Cuts code data before' stretches' →
        before' = before ∧ stretches' = stretches) ∧
      (UnitReader.ofData data).units = stretches.filterMap NalUnit.ofBytes? := by
  obtain ⟨hdata, hfree⟩ := StartCode.cut?_eq_some_iff.1 hcut
  obtain ⟨first, more, rfl, hmore⟩ := exists_stretches code after
  have hcuts : Cuts code data before (first :: more) :=
    { joins := by rw [hdata, StartCode.joined_cons]
      ne_nil := List.cons_ne_nil _ _
      before_free := fun h => hfree (StartCode.infix_append_dropLast_iff.1 h)
      free := hmore }
  refine ⟨first :: more, hcuts, ?_, ?_⟩
  · intro before' stretches' hother
    apply stretches_unique
    · rw [List.forall_mem_cons]
      exact ⟨fun h => hother.before_free (StartCode.infix_append_dropLast_iff.2 h), hother.free⟩
    · rw [List.forall_mem_cons]
      exact ⟨hfree, hmore⟩
    · rw [← hother.joins, ← hcuts.joins]
  · rw [UnitReader.ofData_of_cut? hd hcut]
    exact UnitReader.units_of_stretches hmore rfl

/-- The width that is found is that of the first code: four bytes if a zero stands right before
its last three. -/
theorem detect_eq (h : ¬ StartCode.three.bytes <:+: before) (after : Bytes) :
    let data := before ++ (StartCode.three.bytes ++ after)
    let code := if before.getLast? = some 0 then StartCode.four else .three
    StartCode.detect data = some code ∧
      ∃ lead, code.cut? data = some (lead, after) := by
  intro data code
  constructor
  · rw [StartCode.detect, StartCode.detectAfter_of_first false h]
    cases hlast : before.getLast? with
    | none => simp [code, hlast]
    | some b => simp [code, hlast]
  · obtain rfl | ⟨lead, last, rfl⟩ := List.eq_nil_or_concat before
    · exact ⟨[], StartCode.cut?_eq_some_iff.2 ⟨rfl, h⟩⟩
    · by_cases hzero : last = 0
      · have hcode : code = .four := by simp [code, hzero]
        rw [hcode]
        refine ⟨lead, StartCode.cut?_eq_some_iff.2 ⟨?_, fun hinfix => h ?_⟩⟩
        · simp [data, hzero, StartCode.bytes]
        · have hsub : StartCode.three.bytes <:+: StartCode.four.bytes := by decide
          have hlead : lead <:+: lead.concat last := ⟨[], [last], by simp⟩
          exact (hsub.trans hinfix).trans hlead
      · have hcode : code = .three := by simp [code, hzero]
        rw [hcode]
        exact ⟨_, StartCode.cut?_eq_some_iff.2 ⟨rfl, h⟩⟩

theorem map_bytes_filterMap (stretches : List Bytes) :
    (stretches.filterMap NalUnit.ofBytes?).map NalUnit.bytes = stretches.filter (· ≠ []) := by
  rw [List.map_filterMap, ← List.filterMap_eq_filter]
  congr 1
  funext stretch
  cases stretch <;> rfl

theorem detect_joined_cons (code : StartCode) (stretch : Bytes) (more : List Bytes) :
    StartCode.detect (code.joined (stretch :: more)) = some code := by
  cases code <;> rfl

/-- The units of joined stretches are the stretches that are not empty. -/
theorem splitUnits_joined {stretches : List Bytes}
    (h : ∀ stretch ∈ stretches, ¬ code.bytes <:+: stretch) :
    splitUnits (code.joined stretches) = stretches.filterMap NalUnit.ofBytes? := by
  cases stretches with
  | nil => exact UnitReader.units_of_rest_eq_nil rfl
  | cons first more =>
    have hcut : code.cut? (code.joined (first :: more)) = some ([], first ++ code.joined more) :=
      StartCode.cut?_eq_some_iff.2 ⟨StartCode.joined_cons .., by cases code <;> decide⟩
    rw [splitUnits, UnitReader.ofData_of_cut? (detect_joined_cons ..) hcut]
    exact UnitReader.units_of_stretches h rfl

/-- Units that hold no code are got back from the stream that they are joined to. -/
theorem units_ofData_joined {units : List NalUnit}
    (h : ∀ unit ∈ units, ¬ code.bytes <:+: unit.bytes) :
    (UnitReader.ofData (code.joined (units.map NalUnit.bytes))).units = units := by
  have hunits := splitUnits_joined (List.forall_mem_map.2 h)
  rw [List.filterMap_map] at hunits
  exact hunits.trans List.filterMap_some

/-- Splitting a stream at its start codes undoes joining by them, for every stream. Without a code
there are no units. Otherwise the first code fixes the width; there is one way to cut the stream at
the codes of this width, and the reader gives what stands behind each, unless it is empty, and
then nothing for ever. -/
theorem splitUnits_inverts_joined :
    (∀ data, ¬ StartCode.three.bytes <:+: data →
      splitUnits data = [] ∧ ∀ n, (UnitReader.ofData data).answer n = none) ∧
    (∀ data, StartCode.three.bytes <:+: data →
      ∃ lead after, data = lead ++ (StartCode.three.bytes ++ after) ∧
        (¬ StartCode.three.bytes <:+: lead ++ StartCode.three.bytes.dropLast) ∧
        let code := if lead.getLast? = some 0 then StartCode.four else .three
        ∃ before stretches, Cuts code data before stretches ∧
          (∀ before' stretches', Cuts code data before' stretches' →
            before' = before ∧ stretches' = stretches) ∧
          (splitUnits data).map NalUnit.bytes = stretches.filter (· ≠ []) ∧
          ∀ n, ((UnitReader.ofData data).answer n).map NalUnit.bytes =
            (stretches.filter (· ≠ []))[n]?) ∧
    ∀ (code : StartCode) (units : List NalUnit),
      (∀ unit ∈ units, ¬ code.bytes <:+: unit.bytes) →
        splitUnits (code.joined (units.map NalUnit.bytes)) = units := by
  refine ⟨?_, ?_, ?_⟩
  · intro data hfree
    have hreader : UnitReader.ofData data = { code := .three, rest := [] } := by
      rw [UnitReader.ofData, StartCode.detect, StartCode.detectAfter_eq_none false hfree]
    have hunits : (UnitReader.ofData data).units = [] := by
      rw [hreader]
      exact UnitReader.units_of_rest_eq_nil rfl
    refine ⟨hunits, fun n => ?_⟩
    rw [UnitReader.answer_eq_getElem?, hunits]
    rfl
  · intro data hinfix
    obtain ⟨lead, after, hcut⟩ : ∃ lead after, StartCode.three.cut? data = some (lead, after) := by
      cases hcut : StartCode.three.cut? data with
      | none => exact absurd hinfix (StartCode.cut?_eq_none_iff.1 hcut)
      | some cut => exact ⟨cut.1, cut.2, rfl⟩
    obtain ⟨rfl, hfree⟩ := StartCode.cut?_eq_some_iff.1 hcut
    refine ⟨lead, after, rfl, fun h => hfree (StartCode.infix_append_dropLast_iff.1 h), ?_⟩
    obtain ⟨hdetect, before, hfirst⟩ := detect_eq hfree after
    obtain ⟨stretches, hcuts, hunique, hunits⟩ := cuts_of_detect hdetect hfirst
    refine ⟨before, stretches, hcuts, hunique, ?_, fun n => ?_⟩
    · rw [splitUnits, hunits, map_bytes_filterMap]
    · rw [UnitReader.answer_eq_getElem?, hunits, ← map_bytes_filterMap, List.getElem?_map]
  · intro code units hfree
    exact units_ofData_joined hfree

/-- A unit that ends in a zero byte, two codes in a row and a shorter code inside a unit. -/
example :
    (splitUnits [0xFF, 0, 0, 0, 1, 9, 0, 0, 0, 0, 1, 0, 0, 0, 1, 7, 0, 0, 1]).map NalUnit.bytes =
      [[9, 0], [7, 0, 0, 1]] := by
  decide +kernel

end RealTimeStreaming.H264
