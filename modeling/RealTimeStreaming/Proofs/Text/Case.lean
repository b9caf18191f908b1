import RealTimeStreaming.Text.Blank

/-! Texts that are the same up to ASCII case, told by their letters: in lower case and in upper
case they are told apart alike. -/

namespace RealTimeStreaming.Text

theorem toNat_toUpper (c : Char) :
    c.toUpper.toNat = if 97 ≤ c.toNat ∧ c.toNat ≤ 122 then c.toNat - 32 else c.toNat := by
  have hbounds : (c.val ≥ 'a'.val ∧ c.val ≤ 'z'.val) ↔ 97 ≤ c.toNat ∧ c.toNat ≤ 122 := .rfl
  unfold Char.toUpper
  split <;> rename_i h
  · rw [if_pos (hbounds.1 h)]
    have hle := hbounds.1 h
    simp only [Char.toNat] at hle ⊢
    simp only [UInt32.toNat_add, UInt32.toNat_sub, Char.reduceVal, UInt32.reduceToNat]
    omega
  · rw [if_neg (mt hbounds.2 h)]

theorem toNat_toLower (c : Char) :
    c.toLower.toNat = if 65 ≤ c.toNat ∧ c.toNat ≤ 90 then c.toNat + 32 else c.toNat := by
  have hbounds : (c.val ≥ 'A'.val ∧ c.val ≤ 'Z'.val) ↔ 65 ≤ c.toNat ∧ c.toNat ≤ 90 := .rfl
  unfold Char.toLower
  split <;> rename_i h
  · rw [if_pos (hbounds.1 h)]
    have hle := hbounds.1 h
    simp only [Char.toNat] at hle ⊢
    simp only [UInt32.toNat_add, UInt32.toNat_sub, Char.reduceVal, UInt32.reduceToNat]
    omega
  · rw [if_neg (mt hbounds.2 h)]

theorem toUpper_eq_toUpper_iff (c d : Char) : c.toUpper = d.toUpper ↔ c.toLower = d.toLower := by
  rw [← Char.toNat_inj, ← Char.toNat_inj, toNat_toUpper, toNat_toUpper, toNat_toLower,
    toNat_toLower]
  grind

theorem sameUpToCase_iff {s t : String} :
    sameUpToCase s t ↔ s.toList.map Char.toLower = t.toList.map Char.toLower := by
  rw [sameUpToCase, foldCase, foldCase, beq_iff_eq]

/-- Two texts have one spelling in upper case when they have one in lower case. -/
theorem map_toUpper_eq_iff {s t : List Char} :
    s.map Char.toUpper = t.map Char.toUpper ↔ s.map Char.toLower = t.map Char.toLower := by
  induction s generalizing t with
  | nil => simp
  | cons c s ih => cases t <;> simp [toUpper_eq_toUpper_iff, ih]

/-- A text is a name in upper case, letter by letter, when it is that name up to case. -/
theorem ofList_map_toUpper_eq_iff (s : List Char) (name : String)
    (hname : name.toList.map Char.toUpper = name.toList) :
    String.ofList (s.map Char.toUpper) = name ↔ sameUpToCase (String.ofList s) name := by
  rw [sameUpToCase_iff, String.toList_ofList, ← map_toUpper_eq_iff, hname, ← String.toList_inj,
    String.toList_ofList]

end RealTimeStreaming.Text
