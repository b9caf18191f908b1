import RealTimeStreaming.Request.HeaderMap

/-! What a header map holds after header fields have been inserted one after the other: an
entry for every distinct name, at the place and in the spelling of its first field, with
the value of its last one. -/

namespace RealTimeStreaming

namespace Header

theorem hasName_self (h : Header) : h.hasName h.name := by
  simp [hasName, Text.sameUpToCase]

theorem hasName_eq_decide (h : Header) (name : String) :
    h.hasName name = decide (Text.foldCase h.name = Text.foldCase name) := by
  rw [Bool.eq_iff_iff]
  simp [hasName, Text.sameUpToCase]

end Header

open Header

/-- The first field of every name. -/
def distinct : List Header → List Header
  | [] => []
  | h :: rest => h :: (distinct rest).filter fun e => !h.hasName e.name

/-- The value of the last field called `name`. -/
def lastValue? (name : String) (fields : List Header) : Option String :=
  (fields.reverse.find? (·.hasName name)).map Header.value

/-- The entries that fields leave behind. -/
def collect (fields : List Header) : List Header :=
  (distinct fields).map fun h => { h with value := (lastValue? h.name fields).getD h.value }

/-! ### Distinct names -/

theorem distinct_sublist (fields : List Header) : (distinct fields).Sublist fields := by
  induction fields with
  | nil => exact .slnil
  | cons h fields ih => exact (List.filter_sublist.trans ih).cons_cons h

theorem distinct_append (fields more : List Header) :
    distinct (fields ++ more) =
      distinct fields ++ (distinct more).filter fun e => fields.all fun h => !h.hasName e.name := by
  induction fields with
  | nil => exact (List.filter_eq_self.2 fun _ _ => rfl).symm
  | cons h fields ih =>
    rw [List.cons_append, distinct, distinct, ih, List.filter_append, List.filter_filter,
      List.cons_append]
    simp only [List.all_cons]

theorem length_distinct_le_append (fields more : List Header) :
    (distinct fields).length ≤ (distinct (fields ++ more)).length := by
  rw [distinct_append, List.length_append]
  exact Nat.le_add_right _ _

theorem distinct_snoc_of_mem {fields : List Header} {h : Header}
    (hm : ∃ e ∈ fields, e.hasName h.name) : distinct (fields ++ [h]) = distinct fields := by
  rw [distinct_append]
  obtain ⟨e, he, hn⟩ := hm
  have hf : (fields.all fun e => !e.hasName h.name) = false := by
    rw [List.all_eq_false]
    exact ⟨e, he, by simp [hn]⟩
  simp [distinct, hf]

theorem distinct_snoc_of_not_mem {fields : List Header} {h : Header}
    (hm : ¬ ∃ e ∈ fields, e.hasName h.name) :
    distinct (fields ++ [h]) = distinct fields ++ [h] := by
  rw [distinct_append]
  have hf : (fields.all fun e => !e.hasName h.name) = true := by
    simpa using hm
  simp [distinct, hf]

/-- A name is that of some field exactly when it is that of a first one. -/
theorem exists_mem_distinct_iff {fields : List Header} {name : String} :
    (∃ e ∈ distinct fields, e.hasName name) ↔ ∃ e ∈ fields, e.hasName name := by
  induction fields with
  | nil => simp [distinct]
  | cons h fields ih =>
    simp only [distinct, List.mem_cons, exists_eq_or_imp, ← ih, List.mem_filter]
    by_cases hn : h.hasName name
    · simp [hn]
    · -- a name that the first field does not have passes the filter
      have hk {e : Header} (he : e.hasName name) : h.hasName e.name = false := by
        simp only [hasName_eq_decide, decide_eq_true_eq, decide_eq_false_iff_not] at hn he ⊢
        rwa [he]
      simp only [hn, Bool.false_eq_true, false_or]
      constructor
      · rintro ⟨e, ⟨he, -⟩, hen⟩
        exact ⟨e, he, hen⟩
      · rintro ⟨e, he, hen⟩
        exact ⟨e, ⟨he, by simp [hk hen]⟩, hen⟩

theorem pairwise_distinct (fields : List Header) :
    (distinct fields).Pairwise fun h e => h.hasName e.name = false := by
  induction fields with
  | nil => exact List.Pairwise.nil
  | cons h fields ih =>
    rw [distinct, List.pairwise_cons]
    refine ⟨?_, ih.filter _⟩
    intro e he
    simpa using (List.mem_filter.1 he).2

/-! ### Values -/

theorem lastValue?_snoc (name : String) (fields : List Header) (h : Header) :
    lastValue? name (fields ++ [h]) =
      if h.hasName name then some h.value else lastValue? name fields := by
  simp only [lastValue?, List.reverse_append, List.reverse_cons, List.reverse_nil, List.nil_append,
    List.cons_append, List.find?_cons]
  cases h.hasName name <;> rfl

theorem lastValue?_eq_none_iff {name : String} {fields : List Header} :
    lastValue? name fields = none ↔ ¬ ∃ e ∈ fields, e.hasName name := by
  simp [lastValue?]

theorem exists_mem_of_lastValue? {name value : String} {fields : List Header}
    (h : lastValue? name fields = some value) :
    ∃ f ∈ fields, f.hasName name ∧ f.value = value := by
  obtain ⟨f, hf, hvalue⟩ := Option.map_eq_some_iff.1 h
  have hname : f.hasName name := by simpa using List.find?_some hf
  exact ⟨f, List.mem_reverse.1 (List.mem_of_find?_eq_some hf), hname, hvalue⟩

theorem lastValue?_congr {name other : String} (h : Text.foldCase name = Text.foldCase other)
    (fields : List Header) : lastValue? name fields = lastValue? other fields := by
  simp only [lastValue?, hasName_eq_decide, h]

namespace HeaderMap

/-- Where names are distinct, overwriting is a matter of each entry by itself. -/
theorem overwrite_eq_map {entries : List Header} {name value : String}
    (hp : entries.Pairwise fun h e => h.hasName e.name = false) :
    overwrite name value entries =
      entries.map fun h => if h.hasName name then { h with value } else h := by
  induction entries with
  | nil => rfl
  | cons h rest ih =>
    obtain ⟨hh, hr⟩ := List.pairwise_cons.1 hp
    rw [overwrite, List.map_cons]
    by_cases hn : h.hasName name
    · have hk : ∀ e ∈ rest, e.hasName name = false := by
        intro e he
        have := hh e he
        simp only [hasName_eq_decide, decide_eq_true_eq, decide_eq_false_iff_not] at hn this ⊢
        exact fun hen => this (hn.trans hen.symm)
      rw [if_pos hn, if_pos hn]
      congr 1
      refine (List.map_id rest).symm.trans (List.map_congr_left ?_)
      intro e he
      simp [hk e he]
    · rw [if_neg hn, if_neg hn, ih hr]

end HeaderMap

/-! ### Insertion -/

theorem get?_collect (capacity : Nat) (fields : List Header) (name : String) :
    HeaderMap.get? ⟨capacity, collect fields⟩ name = lastValue? name fields := by
  have hf : (collect fields).find? (·.hasName name) =
      ((distinct fields).find? (·.hasName name)).map fun h =>
        { h with value := (lastValue? h.name fields).getD h.value } := by
    rw [collect, List.find?_map]
    rfl
  rw [HeaderMap.get?, hf]
  cases hd : (distinct fields).find? (·.hasName name) with
  | none =>
    symm
    rw [Option.map_none, Option.map_none, lastValue?_eq_none_iff, ← exists_mem_distinct_iff]
    simpa using hd
  | some h =>
    have hn : h.hasName name := by simpa using List.find?_some hd
    have hl : lastValue? name fields ≠ none := by
      rw [ne_eq, lastValue?_eq_none_iff, Classical.not_not, ← exists_mem_distinct_iff]
      exact ⟨h, List.mem_of_find?_eq_some hd, hn⟩
    obtain ⟨value, hv⟩ := Option.ne_none_iff_exists'.1 hl
    rw [hasName_eq_decide, decide_eq_true_eq] at hn
    simp [lastValue?_congr hn, hv]

theorem size_collect (capacity : Nat) (fields : List Header) :
    HeaderMap.size ⟨capacity, collect fields⟩ = (distinct fields).length := by
  simp [HeaderMap.size, collect]

theorem collect_snoc_of_mem {fields : List Header} {h : Header}
    (hm : ∃ e ∈ fields, e.hasName h.name) :
    collect (fields ++ [h]) = HeaderMap.overwrite h.name h.value (collect fields) := by
  have hp : (collect fields).Pairwise fun h e => h.hasName e.name = false := by
    rw [collect, List.pairwise_map]
    exact pairwise_distinct fields
  rw [HeaderMap.overwrite_eq_map hp, collect, distinct_snoc_of_mem hm, collect, List.map_map]
  refine List.map_congr_left ?_
  intro e _
  have hs : h.hasName e.name = e.hasName h.name := by
    rw [hasName_eq_decide, hasName_eq_decide]
    exact decide_eq_decide.2 eq_comm
  rw [lastValue?_snoc, hs]
  by_cases hn : e.hasName h.name
  · rw [if_pos hn]
    exact (if_pos hn).symm
  · rw [if_neg hn]
    exact (if_neg hn).symm

theorem collect_snoc_of_not_mem {fields : List Header} {h : Header}
    (hm : ¬ ∃ e ∈ fields, e.hasName h.name) : collect (fields ++ [h]) = collect fields ++ [h] := by
  rw [collect, distinct_snoc_of_not_mem hm, List.map_append, collect]
  congr 1
  · refine List.map_congr_left ?_
    intro e he
    have hn : h.hasName e.name = false := by
      have hme : ¬ e.hasName h.name := by
        intro hen
        exact hm (exists_mem_distinct_iff.1 ⟨e, he, hen⟩)
      rw [hasName_eq_decide, decide_eq_true_eq] at hme
      rw [hasName_eq_decide, decide_eq_false_iff_not]
      exact fun heq => hme heq.symm
    rw [lastValue?_snoc, hn]
    rfl
  · simp [lastValue?_snoc, hasName_self]

theorem lastValue?_of_mem_collect {fields : List Header} {h : Header} (hm : h ∈ collect fields) :
    lastValue? h.name fields = some h.value := by
  obtain ⟨f, hf, rfl⟩ := List.mem_map.1 hm
  have hlast : lastValue? f.name fields ≠ none := by
    rw [ne_eq, lastValue?_eq_none_iff, Classical.not_not]
    exact ⟨f, (distinct_sublist fields).subset hf, f.hasName_self⟩
  obtain ⟨value, hvalue⟩ := Option.ne_none_iff_exists'.1 hlast
  simp only [hvalue, Option.getD_some]

/-- An entry has its spelling from one field and its value from another of the same name. -/
theorem exists_fields_of_mem_collect {fields : List Header} {h : Header} (hm : h ∈ collect fields) :
    ∃ f ∈ fields, ∃ l ∈ fields, h.name = f.name ∧ h.value = l.value ∧
      Text.foldCase l.name = Text.foldCase f.name := by
  obtain ⟨l, hl, hname, hvalue⟩ := exists_mem_of_lastValue? (lastValue?_of_mem_collect hm)
  obtain ⟨f, hf, rfl⟩ := List.mem_map.1 hm
  rw [hasName_eq_decide, decide_eq_true_eq] at hname
  exact ⟨f, (distinct_sublist fields).subset hf, l, hl, rfl, hvalue.symm, hname⟩

theorem map_name_collect (fields : List Header) :
    (collect fields).map Header.name = (distinct fields).map Header.name := by
  rw [collect, List.map_map]
  rfl

/-- One field more: the table of all the fields where the names fit, and otherwise the
refusal. The answer is the value that the name had. -/
theorem insert_collect {capacity : Nat} {fields : List Header}
    (hfit : (distinct fields).length ≤ capacity) (h : Header) :
    HeaderMap.insert ⟨capacity, collect fields⟩ h.name h.value =
      if (distinct (fields ++ [h])).length ≤ capacity then
        .ok (⟨capacity, collect (fields ++ [h])⟩, lastValue? h.name fields)
      else .error .headersFull := by
  simp only [HeaderMap.insert, get?_collect, HeaderMap.isFull, size_collect, decide_eq_true_eq]
  by_cases hm : ∃ e ∈ fields, e.hasName h.name
  · have hl : lastValue? h.name fields ≠ none := by
      rw [ne_eq, lastValue?_eq_none_iff, Classical.not_not]
      exact hm
    obtain ⟨value, hv⟩ := Option.ne_none_iff_exists'.1 hl
    rw [distinct_snoc_of_mem hm, collect_snoc_of_mem hm, hv, if_pos hfit]
  · rw [distinct_snoc_of_not_mem hm, collect_snoc_of_not_mem hm, lastValue?_eq_none_iff.2 hm,
      List.length_append, List.length_singleton]
    by_cases hfull : capacity ≤ (distinct fields).length
    · rw [if_pos hfull, if_neg (by omega)]
    · rw [if_neg hfull, if_pos (by omega)]

/-- A map takes one field more exactly when the names fit. -/
theorem insert_collect_eq_ok_iff {capacity : Nat} {fields : List Header} {h : Header}
    {m : HeaderMap} (hfit : (distinct fields).length ≤ capacity) :
    (∃ old, HeaderMap.insert ⟨capacity, collect fields⟩ h.name h.value = .ok (m, old)) ↔
      (distinct (fields ++ [h])).length ≤ capacity ∧ m = ⟨capacity, collect (fields ++ [h])⟩ := by
  rw [insert_collect hfit]
  split
  · next hle => simp [hle, eq_comm]
  · next hle => simp [hle]

example : collect [⟨"CSeq", "1"⟩, ⟨"Session", "x"⟩, ⟨"cseq", "2"⟩] =
    [⟨"CSeq", "2"⟩, ⟨"Session", "x"⟩] := by
  decide

end RealTimeStreaming
