import Mathlib.Data.List.Induction
import Mathlib.Data.List.Perm.Subperm
import RealTimeStreaming.Proofs.Request.Fields

/-! A header map under insertions and clearings in any order. It is the table of the fields
it has taken since the last clearing, where a field is refused when its name would be one
too many: the names are different up to ASCII case, they stand in order of their first
field, and a lookup finds the last one. -/

namespace RealTimeStreaming

namespace HeaderMap

/-- A change to a header map. -/
inductive Edit where
  | insert (name value : String)
  | clear
deriving DecidableEq, Repr

/-- The map after one change. An insertion that is refused leaves it as it is. -/
def edit (m : HeaderMap) : Edit → HeaderMap
  | .insert name value =>
    match m.insert name value with
    | .ok (m, _) => m
    | .error _ => m
  | .clear => m.clear

def editAll (m : HeaderMap) (edits : List Edit) : HeaderMap :=
  edits.foldl edit m

/-- The fields taken since the last clearing, after one change more. -/
def Edit.take (capacity : Nat) (fields : List Header) : Edit → List Header
  | .insert name value =>
    if (distinct (fields ++ [⟨name, value⟩])).length ≤ capacity then fields ++ [⟨name, value⟩]
    else fields
  | .clear => []

/-- The fields taken since the last clearing. -/
def taken (capacity : Nat) (edits : List Edit) : List Header :=
  edits.foldl (Edit.take capacity) []

/-! ### The table of the fields taken -/

/-- The names of the fields taken fit. -/
theorem length_distinct_take_le {capacity : Nat} {fields : List Header}
    (hfit : (distinct fields).length ≤ capacity) (e : Edit) :
    (distinct (e.take capacity fields)).length ≤ capacity := by
  cases e with
  | insert name value =>
    simp only [Edit.take]
    split
    · next h => exact h
    · exact hfit
  | clear => exact Nat.zero_le _

theorem edit_collect {capacity : Nat} {fields : List Header}
    (hfit : (distinct fields).length ≤ capacity) (e : Edit) :
    edit ⟨capacity, collect fields⟩ e = ⟨capacity, collect (e.take capacity fields)⟩ := by
  cases e with
  | insert name value =>
    simp only [edit, Edit.take, insert_collect hfit ⟨name, value⟩]
    by_cases hle : (distinct (fields ++ [⟨name, value⟩])).length ≤ capacity
    · simp only [if_pos hle]
    · simp only [if_neg hle]
  | clear => rfl

/-- By induction on the changes: the names of the fields taken go on to fit. -/
theorem editAll_collect {capacity : Nat} {fields : List Header}
    (hfit : (distinct fields).length ≤ capacity) (edits : List Edit) :
    editAll ⟨capacity, collect fields⟩ edits =
        ⟨capacity, collect (edits.foldl (Edit.take capacity) fields)⟩ ∧
      (distinct (edits.foldl (Edit.take capacity) fields)).length ≤ capacity := by
  induction edits generalizing fields with
  | nil => exact ⟨rfl, hfit⟩
  | cons e edits ih =>
    have ht := length_distinct_take_le hfit e
    rw [editAll, List.foldl_cons, edit_collect hfit, List.foldl_cons]
    exact ih ht

theorem editAll_empty (capacity : Nat) (edits : List Edit) :
    (empty capacity).editAll edits = ⟨capacity, collect (taken capacity edits)⟩ ∧
      (distinct (taken capacity edits)).length ≤ capacity := by
  have hfit : (distinct []).length ≤ capacity := Nat.zero_le _
  exact editAll_collect hfit edits

/-! ### Names and keys -/

/-- In a table no name stands twice, in whatever case. -/
theorem nodup_keys_collect (fields : List Header) :
    ((collect fields).map fun h => Text.foldCase h.name).Nodup := by
  rw [List.Nodup, List.pairwise_map, collect, List.pairwise_map]
  refine (pairwise_distinct fields).imp ?_
  intro h e hne
  rwa [Header.hasName_eq_decide, decide_eq_false_iff_not] at hne

/-- Fields of different names are the entries that they leave behind. -/
theorem collect_of_nodup {fields : List Header}
    (h : (fields.map fun f => Text.foldCase f.name).Nodup) : collect fields = fields := by
  induction fields using List.reverseRecOn with
  | nil => rfl
  | append_singleton fields f ih =>
    rw [List.map_append, List.nodup_append] at h
    obtain ⟨hfields, -, hnew⟩ := h
    have hm : ¬ ∃ e ∈ fields, e.hasName f.name := by
      rintro ⟨e, he, hname⟩
      rw [Header.hasName_eq_decide, decide_eq_true_eq] at hname
      exact hnew _ (List.mem_map_of_mem he) _ (List.mem_singleton_self _) hname
    rw [collect_snoc_of_not_mem hm, ih hfields]

/-- One field more changes the lookup of its own name, in whatever case, and of no other. -/
theorem lastValue?_snoc_foldCase (name value other : String) (fields : List Header) :
    lastValue? other (fields ++ [⟨name, value⟩]) =
      if Text.foldCase name = Text.foldCase other then some value
      else lastValue? other fields := by
  simp only [lastValue?_snoc, Header.hasName_eq_decide, decide_eq_true_eq]

theorem lastValue?_isSome_iff {name : String} {fields : List Header} :
    (lastValue? name fields).isSome ↔
      ∃ f ∈ fields, Text.foldCase f.name = Text.foldCase name := by
  rw [Option.isSome_iff_ne_none, ne_eq, lastValue?_eq_none_iff, Classical.not_not]
  simp only [Header.hasName_eq_decide, decide_eq_true_eq]

/-- A field finds no room exactly when its name is new and there are as many names as fit. -/
theorem not_fits_iff {capacity : Nat} {fields : List Header} {h : Header}
    (hfit : (distinct fields).length ≤ capacity) :
    ¬ (distinct (fields ++ [h])).length ≤ capacity ↔
      lastValue? h.name fields = none ∧ (distinct fields).length = capacity := by
  rw [lastValue?_eq_none_iff]
  by_cases hm : ∃ e ∈ fields, e.hasName h.name
  · rw [distinct_snoc_of_mem hm]
    exact ⟨fun hn => absurd hfit hn, fun hn => absurd hm hn.1⟩
  · rw [distinct_snoc_of_not_mem hm, List.length_append, List.length_singleton]
    constructor
    · intro hn
      exact ⟨hm, by omega⟩
    · rintro ⟨-, hfull⟩
      omega

/-- Of fields with too many names one is the first to find no room. -/
theorem exists_first_refused {capacity : Nat} {fields : List Header}
    (h : capacity < (distinct fields).length) :
    ∃ before f after, fields = before ++ f :: after ∧ (distinct before).length = capacity ∧
      lastValue? f.name before = none := by
  induction fields using List.reverseRecOn with
  | nil => exact absurd h (Nat.not_lt_zero _)
  | append_singleton fields last ih =>
    by_cases hfit : (distinct fields).length ≤ capacity
    · obtain ⟨hnew, hfull⟩ := (not_fits_iff hfit).1 (Nat.not_le.2 h)
      exact ⟨fields, last, [], rfl, hfull, hnew⟩
    · obtain ⟨before, f, after, rfl, hbefore⟩ := ih (Nat.not_le.1 hfit)
      exact ⟨before, f, after ++ [last], by simp, hbefore⟩

/-- Spellings of so many names are no more names. -/
theorem length_distinct_le_of_names {fields : List Header} {names : List String}
    (h : ∀ f ∈ fields, ∃ name ∈ names, Text.foldCase f.name = Text.foldCase name) :
    (distinct fields).length ≤ names.length := by
  have hsubset : (collect fields).map (fun e => Text.foldCase e.name) ⊆
      names.map Text.foldCase := by
    intro key hkey
    obtain ⟨e, he, rfl⟩ := List.mem_map.1 hkey
    obtain ⟨f, hf, -, -, hname, -⟩ := exists_fields_of_mem_collect he
    obtain ⟨name, hmem, hfold⟩ := h f hf
    exact List.mem_map.2 ⟨name, hmem, by rw [hname, hfold]⟩
  have hlength := ((nodup_keys_collect fields).subperm hsubset).length_le
  rwa [List.length_map, List.length_map, collect, List.length_map] at hlength

/-- A header map is a bounded table. After any insertions and clearings its names are
different up to ASCII case and no more than fit, its entries are those of the fields taken
since the last clearing, and a lookup answers with the last value under the name in any
case. One insertion more is refused exactly when its name is new and the map is full; else
it answers with the value that the name had, and changes the lookup of no other name. -/
theorem editAll_empty_tabulates (capacity : Nat) (edits : List Edit) :
    let m := (empty capacity).editAll edits
    let fields := taken capacity edits
    m.capacity = capacity ∧ m.size ≤ capacity ∧
    (m.entries.map fun h => Text.foldCase h.name).Nodup ∧
    m.entries = collect fields ∧
    (∀ name, m.get? name = lastValue? name fields) ∧
    (∀ name, (m.get? name).isSome ↔
      ∃ f ∈ fields, Text.foldCase f.name = Text.foldCase name) ∧
    ∀ name value,
      (∀ e, m.insert name value = .error e ↔
        e = .headersFull ∧ m.get? name = none ∧ m.size = capacity) ∧
      (∀ e, m.insert name value = .error e → m.edit (.insert name value) = m) ∧
      ∀ m' old, m.insert name value = .ok (m', old) →
        m' = m.edit (.insert name value) ∧ old = m.get? name ∧
        ∀ other, m'.get? other =
          if Text.foldCase name = Text.foldCase other then some value else m.get? other := by
  intro m fields
  obtain ⟨hm, hfit⟩ : m = ⟨capacity, collect fields⟩ ∧ (distinct fields).length ≤ capacity :=
    editAll_empty capacity edits
  have hget (name : String) : m.get? name = lastValue? name fields := by
    rw [hm, get?_collect]
  have hsize : m.size = (distinct fields).length := by rw [hm, size_collect]
  refine ⟨by rw [hm], hsize ▸ hfit, ?_, by rw [hm], hget, ?_, ?_⟩
  · rw [hm]
    exact nodup_keys_collect fields
  · intro name
    rw [hget, lastValue?_isSome_iff]
  · intro name value
    have hi : m.insert name value =
        if (distinct (fields ++ [⟨name, value⟩])).length ≤ capacity then
          .ok (⟨capacity, collect (fields ++ [⟨name, value⟩])⟩, lastValue? name fields)
        else .error .headersFull := by
      rw [hm]
      exact insert_collect hfit ⟨name, value⟩
    refine ⟨?_, ?_, ?_⟩
    · intro e
      rw [hget, hsize, ← not_fits_iff (h := ⟨name, value⟩) hfit, hi]
      split
      · next hle => simp [hle]
      · next hle => simp [hle, eq_comm]
    · intro e he
      simp only [edit, he]
    · intro m' old hok
      refine ⟨by simp only [edit, hok], ?_⟩
      rw [hi] at hok
      split at hok
      · cases hok
        refine ⟨(hget name).symm, ?_⟩
        intro other
        rw [get?_collect, lastValue?_snoc_foldCase, hget]
      · cases hok

example : ((empty 1).editAll [.insert "A" "1", .insert "B" "2", .insert "a" "3"]).entries =
    [⟨"A", "3"⟩] := by
  decide

end HeaderMap

end RealTimeStreaming
