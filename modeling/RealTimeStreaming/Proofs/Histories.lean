import Mathlib.Data.List.Basic

/-! Histories: lists that grow at their end. That something has happened is said of an element and
of all that stands in front of it; that something is so since then, of an element and of all that
stands behind it. Both are followed along a history by what its last element adds. -/

namespace RealTimeStreaming

variable {α : Type}

/-- Some element, with what stands in front of it, has `p`. -/
def Happened (p : List α → α → Prop) (l : List α) : Prop :=
  ∃ front a later, l = front ++ a :: later ∧ p front a

/-- Some element has `p`, and none behind it has `q`. -/
def Since (p q : α → Prop) (l : List α) : Prop :=
  ∃ front a later, l = front ++ a :: later ∧ p a ∧ ∀ b ∈ later, ¬ q b

/-- An element of a list that has grown is the new one, or was there before. -/
theorem append_singleton_eq_iff {l front later : List α} {a b : α} :
    l ++ [b] = front ++ a :: later ↔
      (l = front ∧ b = a ∧ later = []) ∨ ∃ rest, l = front ++ a :: rest ∧ later = rest ++ [b] := by
  constructor
  · intro h
    rcases List.eq_nil_or_concat' later with rfl | ⟨rest, c, rfl⟩
    · obtain ⟨rfl, rfl⟩ := List.append_singleton_inj.1 h
      exact .inl ⟨rfl, rfl, rfl⟩
    · rw [← List.cons_append, ← List.append_assoc, List.append_singleton_inj] at h
      obtain ⟨rfl, rfl⟩ := h
      exact .inr ⟨rest, rfl, rfl⟩
  · rintro (⟨rfl, rfl, rfl⟩ | ⟨rest, rfl, rfl⟩)
    · rfl
    · rw [List.append_assoc, List.cons_append]

section Happened

variable {p : List α → α → Prop} {l : List α} {b : α}

theorem not_happened_nil : ¬ Happened p [] := by
  rintro ⟨front, a, later, hnil, -⟩
  simp at hnil

theorem happened_snoc : Happened p (l ++ [b]) ↔ Happened p l ∨ p l b := by
  simp only [Happened, append_singleton_eq_iff]
  constructor
  · rintro ⟨front, a, later, ⟨rfl, rfl, -⟩ | ⟨rest, hl, -⟩, hp⟩
    · exact .inr hp
    · exact .inl ⟨front, a, rest, hl, hp⟩
  · rintro (⟨front, a, rest, hl, hp⟩ | hp)
    · exact ⟨front, a, rest ++ [b], .inr ⟨rest, hl, rfl⟩, hp⟩
    · exact ⟨l, b, [], .inl ⟨rfl, rfl, rfl⟩, hp⟩

end Happened

section Since

variable {p q : α → Prop} {l : List α} {b : α}

theorem not_since_nil : ¬ Since p q [] := by
  rintro ⟨front, a, later, hnil, -, -⟩
  simp at hnil

theorem since_snoc : Since p q (l ++ [b]) ↔ p b ∨ Since p q l ∧ ¬ q b := by
  simp only [Since, append_singleton_eq_iff]
  constructor
  · rintro ⟨front, a, later, ⟨rfl, rfl, -⟩ | ⟨rest, hl, rfl⟩, hp, hq⟩
    · exact .inl hp
    · rw [List.forall_mem_append, List.forall_mem_singleton] at hq
      exact .inr ⟨⟨front, a, rest, hl, hp, hq.1⟩, hq.2⟩
  · rintro (hp | ⟨⟨front, a, rest, hl, hp, hrest⟩, hq⟩)
    · exact ⟨l, b, [], .inl ⟨rfl, rfl, rfl⟩, hp, by simp⟩
    · refine ⟨front, a, rest ++ [b], .inr ⟨rest, hl, rfl⟩, hp, ?_⟩
      rw [List.forall_mem_append, List.forall_mem_singleton]
      exact ⟨hrest, hq⟩

end Since

end RealTimeStreaming
