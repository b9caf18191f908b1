import RealTimeStreaming.Proofs.Text.Parts
import RealTimeStreaming.Text.Blank
import RealTimeStreaming.Text.Utf8

/-! UTF-8 bytes and the characters they spell. A text of several parts is spelled part by part,
and a byte below 128 spells itself, so an ASCII separator stands in the bytes only where it
stands in the text. -/

namespace RealTimeStreaming.Text

@[simp] theorem utf8_append (s t : String) : utf8 (s ++ t) = utf8 s ++ utf8 t := by
  rw [utf8, String.toByteArray_append, ByteArray.data_append, Array.toList_append]
  rfl

theorem utf8_join (parts : List String) :
    utf8 (String.join parts) = (parts.map utf8).flatten := by
  induction parts with
  | nil => rfl
  | cons part parts ih => rw [String.join_cons, utf8_append, ih, List.map_cons, List.flatten_cons]

theorem utf8_eq_flatMap (s : String) : utf8 s = s.toList.flatMap String.utf8EncodeChar := by
  have h : s.toByteArray = s.toList.utf8Encode := by
    rw [← String.toByteArray_ofList, String.ofList_toList]
  rw [utf8, h, List.utf8Encode, List.toList_data_toByteArray]

/-- A byte below 128 spells itself; the bytes of other characters are all above. -/
theorem eq_of_mem_utf8EncodeChar {c : Char} {b : UInt8} (h : b ∈ String.utf8EncodeChar c)
    (hb : b < 0x80) : c = Char.ofNat b.toNat := by
  rw [UInt8.lt_iff_toNat_lt] at hb
  simp only [UInt8.reduceToNat] at hb
  have hv : c.val.toNat = c.toNat := rfl
  unfold String.utf8EncodeChar at h
  simp only at h
  split at h
  · rename_i hascii
    rw [List.mem_singleton] at h
    rw [h, UInt8.toNat_ofNat_of_lt' (by simp only [UInt8.size]; omega), hv, Char.ofNat_toNat]
  · rename_i hwide
    exfalso
    split at h
    · simp only [List.mem_cons, List.not_mem_nil, or_false, ← UInt8.toNat_inj,
        UInt8.toNat_ofNat'] at h
      omega
    · split at h <;>
      · simp only [List.mem_cons, List.not_mem_nil, or_false, ← UInt8.toNat_inj,
          UInt8.toNat_ofNat'] at h
        omega

theorem mem_of_mem_utf8 {s : String} {b : UInt8} (h : b ∈ utf8 s) (hb : b < 0x80) :
    Char.ofNat b.toNat ∈ s.toList := by
  rw [utf8_eq_flatMap, List.mem_flatMap] at h
  obtain ⟨c, hc, hm⟩ := h
  rwa [← eq_of_mem_utf8EncodeChar hm hb]

theorem utf8EncodeChar_of_ascii {b : UInt8} (h : b < 0x80) :
    String.utf8EncodeChar (Char.ofNat b.toNat) = [b] := by
  rw [UInt8.lt_iff_toNat_lt] at h
  simp only [UInt8.reduceToNat] at h
  have hvalid : b.toNat.isValidChar := .inl (by omega)
  have hvalue : (Char.ofNat b.toNat).val.toNat = b.toNat := by
    rw [Char.ofNat, dif_pos hvalid]
    exact UInt32.toNat_ofNatLT ..
  unfold String.utf8EncodeChar
  simp only [hvalue]
  rw [if_pos (by omega), UInt8.ofNat_toNat]

/-- ASCII bytes spell the text that is made of them. -/
theorem utf8_ofAscii {bytes : Bytes} (h : ∀ b ∈ bytes, b < 0x80) :
    utf8 (ofAscii bytes) = bytes := by
  rw [utf8_eq_flatMap, ofAscii, String.toList_ofList]
  induction bytes with
  | nil => rfl
  | cons b bytes ih =>
    obtain ⟨hb, hbytes⟩ := List.forall_mem_cons.1 h
    rw [List.map_cons, List.flatMap_cons, ih hbytes, utf8EncodeChar_of_ascii hb]
    rfl

/-- A text in ASCII has as many bytes as characters. -/
theorem length_utf8_of_ascii {s : String} (h : ∀ b ∈ utf8 s, b < 0x80) :
    (utf8 s).length = s.toList.length := by
  have hs : ofAscii (utf8 s) = s := utf8_injective (utf8_ofAscii h)
  conv => rhs; rw [← hs]
  rw [ofAscii, String.toList_ofList, List.length_map]

/-! ### Numbers as they are written -/

theorem ofDigits_eq_ofDigitChars (digits : List Char) :
    Nat.ofDigits 10 (digits.reverse.map digitValue) = Nat.ofDigitChars 10 digits 0 := by
  induction digits with
  | nil => rfl
  | cons c digits ih =>
    have hvalue : c.toNat - '0'.toNat = digitValue c := rfl
    rw [ofDigits_cons, ih, Nat.ofDigitChars_cons, hvalue, Nat.mul_zero, Nat.zero_add,
      @Nat.ofDigitChars_eq_ofDigitChars_zero digits (digitValue c), Nat.mul_comm]

theorem isDigit_of_mem_toString {n : Nat} {c : Char} (h : c ∈ (toString n).toList) :
    c.isDigit := by
  have hdigits : (toString n).toList = Nat.toDigits 10 n := Nat.toList_repr
  rw [hdigits] at h
  exact Nat.isDigit_of_mem_toDigits (by decide) (by decide) h

/-- The text that a number is written as is a text of it. -/
theorem decimal_toString (n : Nat) : Decimal (toString n).toList n := by
  have hdigits : (toString n).toList = Nat.toDigits 10 n := Nat.toList_repr
  refine ⟨(toString n).toList, .inl rfl, ?_, fun c => isDigit_of_mem_toString, ?_⟩
  · rw [hdigits]
    exact Nat.toDigits_ne_nil
  · rw [ofDigits_eq_ofDigitChars, hdigits, Nat.ofDigitChars_ten_toDigits]

theorem readNat_toString {max n : Nat} (h : n ≤ max) :
    readNat max (toString n).toList = .ok n :=
  readNat_eq_ok_iff.2 ⟨decimal_toString n, h⟩

theorem isBlank_of_isDigit {c : Char} (h : c.isDigit) : isBlank c = false := by
  simp only [Char.isDigit, Bool.and_eq_true, decide_eq_true_eq, ge_iff_le,
    UInt32.le_iff_toNat_le, Char.reduceVal, UInt32.reduceToNat] at h
  have hv : c.val.toNat = c.toNat := rfl
  simp only [isBlank, Bool.or_eq_false_iff, Bool.and_eq_false_iff, decide_eq_false_iff_not,
    beq_eq_false_iff_ne]
  omega

@[simp] theorem trimBlanks_toString (n : Nat) :
    trimBlanks (toString n).toList = (toString n).toList :=
  trim_eq_self fun _ hc => isBlank_of_isDigit (isDigit_of_mem_toString hc)

end RealTimeStreaming.Text
