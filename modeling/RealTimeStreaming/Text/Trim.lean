/-! Trimming and cutting of sequences, for bytes and characters alike. A trim takes the
class of items to drop; a cut goes at the first separator. Nothing else is lost:
`cutAt_eq_some` puts the pieces of a cut back together. -/

namespace RealTimeStreaming.Text

variable {α : Type}

/-- Drops the longest run of `p` at the end. -/
def trimEnd (p : α → Bool) (l : List α) : List α :=
  (l.reverse.dropWhile p).reverse

/-- Drops the longest runs of `p` at both ends. -/
def trim (p : α → Bool) (l : List α) : List α :=
  trimEnd p (l.dropWhile p)

/-- What stands before and after the first `sep`. -/
def cutAt [BEq α] (sep : α) : List α → Option (List α × List α)
  | [] => none
  | x :: rest =>
    if x == sep then some ([], rest)
    else (cutAt sep rest).map fun (before, after) => (x :: before, after)

/-- What follows `start`, of a list that begins with it. -/
def afterStart? [BEq α] : List α → List α → Option (List α)
  | [], l => some l
  | _ :: _, [] => none
  | s :: start, x :: l => if s == x then afterStart? start l else none

@[simp] theorem trimEnd_nil (p : α → Bool) : trimEnd p [] = [] := rfl

theorem cutAt_eq_some [BEq α] [LawfulBEq α] {sep : α} {l before after : List α}
    (h : cutAt sep l = some (before, after)) :
    l = before ++ sep :: after ∧ sep ∉ before := by
  induction l generalizing before with
  | nil => simp [cutAt] at h
  | cons x rest ih =>
    unfold cutAt at h
    split at h
    · rename_i hx
      simp only [Option.some.injEq, Prod.mk.injEq] at h
      obtain ⟨rfl, rfl⟩ := h
      simp [beq_iff_eq.1 hx]
    · rename_i hx
      simp only [Option.map_eq_some_iff, Prod.mk.injEq, Prod.exists] at h
      obtain ⟨b, a, hc, rfl, rfl⟩ := h
      obtain ⟨rfl, hb⟩ := ih hc
      simp only [beq_iff_eq] at hx
      exact ⟨rfl, by simp [hb, Ne.symm hx]⟩

theorem cutAt_eq_none [BEq α] [LawfulBEq α] {sep : α} {l : List α} :
    cutAt sep l = none ↔ sep ∉ l := by
  induction l with
  | nil => simp [cutAt]
  | cons x rest ih =>
    unfold cutAt
    split
    · rename_i hx
      simp [beq_iff_eq.1 hx]
    · rename_i hx
      simp only [beq_iff_eq] at hx
      simp [ih, Ne.symm hx]

theorem afterStart?_eq_some [BEq α] [LawfulBEq α] {start l rest : List α} :
    afterStart? start l = some rest ↔ l = start ++ rest := by
  induction start generalizing l with
  | nil => simp [afterStart?]
  | cons s start ih =>
    cases l with
    | nil => simp [afterStart?]
    | cons x l =>
      by_cases hx : s = x
      · simp [afterStart?, hx, ih]
      · simp [afterStart?, hx, Ne.symm hx]

end RealTimeStreaming.Text
