/-! Cutting a sequence into slices of one length, the last of which may be shorter. -/

namespace RealTimeStreaming

variable {α : Type}

/-- Slices of `l` after those already cut off, which come last one first. -/
def slicesAfter (n : Nat) (done : List (List α)) (l : List α) : List (List α) :=
  if l = [] ∨ n = 0 then done.reverse
  else slicesAfter n (l.take n :: done) (l.drop n)
termination_by l.length
decreasing_by
  rename_i h
  rw [not_or] at h
  have := List.length_pos_iff.2 h.1
  simp only [List.length_drop]
  omega

/-- Cuts a sequence into slices of `n` items. -/
def slices (n : Nat) (l : List α) : List (List α) :=
  slicesAfter n [] l

theorem slicesAfter_eq (n : Nat) (done : List (List α)) (l : List α) :
    slicesAfter n done l = done.reverse ++ slices n l := by
  unfold slices
  by_cases h : l = [] ∨ n = 0
  · rw [slicesAfter, if_pos h, slicesAfter, if_pos h]
    simp
  · rw [slicesAfter, if_neg h, slicesAfter_eq n (l.take n :: done) (l.drop n)]
    conv => rhs; rw [slicesAfter, if_neg h, slicesAfter_eq n [l.take n] (l.drop n)]
    simp
termination_by l.length
decreasing_by
  all_goals
    rw [not_or] at h
    have := List.length_pos_iff.2 h.1
    simp only [List.length_drop]
    omega

@[simp] theorem slices_nil (n : Nat) : slices n ([] : List α) = [] := by
  simp [slices, slicesAfter]

theorem slices_of_ne_nil {n : Nat} (hn : 0 < n) {l : List α} (hl : l ≠ []) :
    slices n l = l.take n :: slices n (l.drop n) := by
  rw [slices, slicesAfter, if_neg (by simp [hl]; omega), slicesAfter_eq]
  rfl

theorem flatten_slices {n : Nat} (hn : 0 < n) (l : List α) : (slices n l).flatten = l := by
  by_cases hl : l = []
  · simp [hl]
  · rw [slices_of_ne_nil hn hl, List.flatten_cons, flatten_slices hn, List.take_append_drop]
termination_by l.length
decreasing_by
  have := List.length_pos_iff.2 hl
  simp only [List.length_drop]
  omega

/-- A slice is never empty and has at most the asked length. -/
theorem of_mem_slices {n : Nat} (hn : 0 < n) {l piece : List α} (h : piece ∈ slices n l) :
    piece ≠ [] ∧ piece.length ≤ n := by
  by_cases hl : l = []
  · simp [hl] at h
  · rw [slices_of_ne_nil hn hl, List.mem_cons] at h
    rcases h with rfl | h
    · refine ⟨?_, List.length_take_le n l⟩
      rw [Ne, List.take_eq_nil_iff, not_or]
      exact ⟨Nat.ne_of_gt hn, hl⟩
    · exact of_mem_slices hn h
termination_by l.length
decreasing_by
  have := List.length_pos_iff.2 hl
  simp only [List.length_drop]
  omega

/-- There are as many slices as the length holds slices of full length, rounded up. -/
theorem length_slices (n : Nat) (l : List α) : (slices n l).length = (l.length + n - 1) / n := by
  obtain rfl | hn := Nat.eq_zero_or_pos n
  · simp [slices, slicesAfter]
  by_cases hl : l = []
  · rw [hl, slices_nil, List.length_nil, List.length_nil, Nat.zero_add,
      Nat.div_eq_of_lt (Nat.sub_lt hn Nat.one_pos)]
  · have hpos := List.length_pos_iff.2 hl
    have hshorter : (l.drop n).length < l.length := by
      rw [List.length_drop]
      omega
    have hlast : l.length + n - 1 = l.length - 1 + n := by omega
    rw [slices_of_ne_nil hn hl, List.length_cons, length_slices n (l.drop n), hlast,
      Nat.add_div_right _ hn, List.length_drop]
    by_cases hle : n ≤ l.length
    · rw [Nat.sub_add_cancel hle]
    · rw [Nat.sub_eq_zero_of_le (Nat.le_of_not_le hle), Nat.zero_add,
        Nat.div_eq_of_lt (Nat.sub_lt hn Nat.one_pos), Nat.div_eq_of_lt (by omega)]
termination_by l.length

/-- A slice is its own only slice. -/
theorem slices_of_mem_slices {n : Nat} (hn : 0 < n) {l piece : List α} (h : piece ∈ slices n l) :
    slices n piece = [piece] := by
  obtain ⟨hne, hlength⟩ := of_mem_slices hn h
  rw [slices_of_ne_nil hn hne, List.take_of_length_le hlength, List.drop_eq_nil_of_le hlength,
    slices_nil]

/-- The first slices are the slices of a front of the sequence. -/
theorem take_slices (n k : Nat) (l : List α) : (slices n l).take k = slices n (l.take (k * n)) := by
  obtain rfl | hn := Nat.eq_zero_or_pos n
  · simp [slices, slicesAfter]
  induction k generalizing l with
  | zero => simp
  | succ k ih =>
    by_cases hl : l = []
    · simp [hl]
    · have hfront : l.take ((k + 1) * n) ≠ [] := by
        rw [Ne, List.take_eq_nil_iff, not_or]
        exact ⟨Nat.ne_of_gt (Nat.mul_pos k.succ_pos hn), hl⟩
      have hle : n ≤ (k + 1) * n := Nat.le_mul_of_pos_left n k.succ_pos
      rw [slices_of_ne_nil hn hl, List.take_succ_cons, ih, slices_of_ne_nil hn hfront,
        List.take_take, Nat.min_eq_left hle, List.drop_take, Nat.succ_mul, Nat.add_sub_cancel]

end RealTimeStreaming
