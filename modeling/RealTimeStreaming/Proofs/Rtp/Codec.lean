import Mathlib.Data.FinEnum
import RealTimeStreaming.Rtp.Header

/-! Packet headers, written and read back in either order. The numbers are put together from
their bytes; the first two bytes pack several fields, which keep the bits there is room for and do
not disturb one another. -/

namespace RealTimeStreaming.Rtp

open Octet (flag)

/-! ### Numbers from their bytes -/

/-- A number in the low bits, which are clear, is added by setting its bits. -/
theorem mul_or_of_lt {i low : Nat} (h : low < 2 ^ i) (high : Nat) :
    high * 2 ^ i ||| low = high * 2 ^ i + low := by
  rw [Nat.mul_comm, Nat.two_pow_add_eq_or_of_lt h]

theorem toNat_of16 (a b : UInt8) : (of16 a b).toNat = a.toNat * 2 ^ 8 + b.toNat := by
  have hshift : (a.toUInt16 <<< 8).toNat = a.toNat * 2 ^ 8 := by
    have ha := a.toNat_lt
    simp only [UInt16.toNat_shiftLeft, UInt8.toNat_toUInt16, Nat.shiftLeft_eq,
      UInt16.reduceToNat, Nat.reduceMod, Nat.reducePow]
    omega
  rw [of16, UInt16.toNat_or, hshift, UInt8.toNat_toUInt16, mul_or_of_lt b.toNat_lt]

theorem toNat_shiftLeft_toUInt32 (b : UInt8) {n : UInt32} (hn : n.toNat ≤ 24) :
    (b.toUInt32 <<< n).toNat = b.toNat * 2 ^ n.toNat := by
  have hb : b.toNat * 2 ^ n.toNat < 2 ^ 8 * 2 ^ 24 :=
    Nat.mul_lt_mul_of_lt_of_le b.toNat_lt (Nat.pow_le_pow_right (by omega) hn) (by omega)
  rw [UInt32.toNat_shiftLeft, UInt8.toNat_toUInt32, Nat.shiftLeft_eq,
    Nat.mod_eq_of_lt (a := n.toNat) (by omega)]
  exact Nat.mod_eq_of_lt hb

theorem toNat_of32 (a b c d : UInt8) :
    (of32 a b c d).toNat = ((a.toNat * 2 ^ 8 + b.toNat) * 2 ^ 8 + c.toNat) * 2 ^ 8 + d.toNat := by
  have hb := b.toNat_lt
  have hc := c.toNat_lt
  have hd := d.toNat_lt
  rw [of32, UInt32.toNat_or, UInt32.toNat_or, UInt32.toNat_or,
    toNat_shiftLeft_toUInt32 a (by decide), toNat_shiftLeft_toUInt32 b (by decide),
    toNat_shiftLeft_toUInt32 c (by decide), UInt8.toNat_toUInt32]
  change a.toNat * 2 ^ 24 ||| b.toNat * 2 ^ 16 ||| c.toNat * 2 ^ 8 ||| d.toNat = _
  -- One byte after the other joins the number above it.
  rw [mul_or_of_lt (i := 24) (by omega),
    show a.toNat * 2 ^ 24 + b.toNat * 2 ^ 16 = (a.toNat * 2 ^ 8 + b.toNat) * 2 ^ 16 by omega,
    mul_or_of_lt (i := 16) (by omega),
    show (a.toNat * 2 ^ 8 + b.toNat) * 2 ^ 16 + c.toNat * 2 ^ 8 =
      ((a.toNat * 2 ^ 8 + b.toNat) * 2 ^ 8 + c.toNat) * 2 ^ 8 by omega,
    mul_or_of_lt (i := 8) (by omega)]

theorem of16_bytes (n : UInt16) : of16 (n >>> 8).toUInt8 n.toUInt8 = n := by
  apply UInt16.toNat_inj.1
  have hn := n.toNat_lt
  rw [toNat_of16]
  simp only [UInt16.toNat_toUInt8, UInt16.toNat_shiftRight, UInt16.reduceToNat,
    Nat.shiftRight_eq_div_pow, Nat.reduceMod, Nat.reducePow]
  omega

theorem of32_bytes (n : UInt32) :
    of32 (n >>> 24).toUInt8 (n >>> 16).toUInt8 (n >>> 8).toUInt8 n.toUInt8 = n := by
  apply UInt32.toNat_inj.1
  have hn := n.toNat_lt
  rw [toNat_of32]
  simp only [UInt32.toNat_toUInt8, UInt32.toNat_shiftRight, UInt32.reduceToNat,
    Nat.shiftRight_eq_div_pow, Nat.reduceMod, Nat.reducePow]
  omega

theorem bytesOf16_of16 (a b : UInt8) : bytesOf16 (of16 a b) = [a, b] := by
  have ha := a.toNat_lt
  have hb := b.toNat_lt
  simp only [bytesOf16, List.cons.injEq, ← UInt8.toNat_inj, UInt16.toNat_toUInt8,
    UInt16.toNat_shiftRight, toNat_of16, UInt16.reduceToNat, Nat.shiftRight_eq_div_pow,
    Nat.reduceMod, Nat.reducePow, and_true]
  omega

theorem bytesOf32_of32 (a b c d : UInt8) : bytesOf32 (of32 a b c d) = [a, b, c, d] := by
  have ha := a.toNat_lt
  have hb := b.toNat_lt
  have hc := c.toNat_lt
  have hd := d.toNat_lt
  simp only [bytesOf32, List.cons.injEq, ← UInt8.toNat_inj, UInt32.toNat_toUInt8,
    UInt32.toNat_shiftRight, toNat_of32, UInt32.reduceToNat, Nat.shiftRight_eq_div_pow,
    Nat.reduceMod, Nat.reducePow, and_true]
  omega

/-! ### Packed bytes -/

theorem first_byte_fields : ∀ (padding extension : Bool) (count : UInt8),
    let b := 0x80 ||| flag padding 0x20 ||| flag extension 0x10 ||| (count &&& 0x0F)
    b >>> 6 = 2 ∧ (b &&& 0x20 != 0) = padding ∧ (b &&& 0x10 != 0) = extension ∧
      b &&& 0x0F = count &&& 0x0F := by
  decide +kernel

theorem second_byte_fields : ∀ (marker : Bool) (payloadType : UInt8),
    let b := flag marker 0x80 ||| (payloadType &&& 0x7F)
    (b &&& 0x80 != 0) = marker ∧ b &&& 0x7F = payloadType &&& 0x7F := by
  decide +kernel

theorem and_low_bits_of_lt : ∀ payloadType : UInt8,
    payloadType < 0x80 → payloadType &&& 0x7F = payloadType := by
  decide +kernel

/-- A byte with the version in its top bits is what its other fields are packed to. -/
theorem pack_first_byte : ∀ b : UInt8, b >>> 6 = 2 →
    0x80 ||| flag (b &&& 0x20 != 0) 0x20 ||| flag (b &&& 0x10 != 0) 0x10 |||
      (b &&& 0x0F &&& 0x0F) = b := by
  decide +kernel

theorem pack_second_byte : ∀ b : UInt8,
    flag (b &&& 0x80 != 0) 0x80 ||| (b &&& 0x7F &&& 0x7F) = b := by
  decide +kernel

theorem and_low_bits_eq_mod : ∀ b : UInt8, b &&& 0x0F = b % 16 ∧ b &&& 0x7F = b % 128 := by
  decide +kernel

theorem shiftRight_six_eq_two_iff : ∀ b : UInt8, b >>> 6 = 2 ↔ b.toNat / 64 = 2 := by
  decide +kernel

/-! ### Headers -/

/-- What is read from a written header: the header, in the bits it has room for. -/
theorem Header.decode?_encode (h : Header) (rest : Bytes) :
    decode? (h.encode ++ rest) =
      some { h with csrcCount := h.csrcCount &&& 0x0F, payloadType := h.payloadType &&& 0x7F } := by
  obtain ⟨hversion, hpadding, hextension, hcount⟩ :=
    first_byte_fields h.padding h.extension h.csrcCount
  obtain ⟨hmarker, htype⟩ := second_byte_fields h.marker h.payloadType
  simp only [encode, bytesOf16, bytesOf32, List.cons_append, List.nil_append, decode?,
    if_pos hversion, hpadding, hextension, hcount, hmarker, htype, of16_bytes, of32_bytes]

namespace Header

/-- The fields of a header. -/
inductive Field where
  | padding
  | extension
  | csrcCount
  | marker
  | payloadType
  | sequence
  | timestamp
  | ssrc
deriving DecidableEq, Repr

/-- A field as a number; a flag is zero or one. -/
def Field.value : Field → Header → Nat
  | .padding, h => h.padding.toNat
  | .extension, h => h.extension.toNat
  | .csrcCount, h => h.csrcCount.toNat
  | .marker, h => h.marker.toNat
  | .payloadType, h => h.payloadType.toNat
  | .sequence, h => h.sequence.toNat
  | .timestamp, h => h.timestamp.toNat
  | .ssrc, h => h.ssrc.toNat

/-- How many bits of a packet a field has. -/
def Field.width : Field → Nat
  | .padding | .extension | .marker => 1
  | .csrcCount => 4
  | .payloadType => 7
  | .sequence => 16
  | .timestamp | .ssrc => 32

/-- Twelve bytes or more, with version two in the top bits of the first. -/
def Begins (bytes : Bytes) : Prop :=
  length ≤ bytes.length ∧ ∃ first ∈ bytes.head?, first.toNat / 64 = 2

theorem decode?_encode_eq_mod (h : Header) (rest : Bytes) :
    decode? (h.encode ++ rest) =
      some { h with csrcCount := h.csrcCount % 16, payloadType := h.payloadType % 128 } := by
  rw [decode?_encode, (and_low_bits_eq_mod h.csrcCount).1, (and_low_bits_eq_mod h.payloadType).2]

theorem decode?_encode_eq_self_iff (h : Header) (rest : Bytes) :
    decode? (h.encode ++ rest) = some h ↔ h.csrcCount < 16 ∧ h.payloadType < 128 := by
  have hmod (b n : UInt8) (hn : 0 < n.toNat) : b % n = b ↔ b < n := by
    rw [← UInt8.toNat_inj, UInt8.toNat_mod, Nat.mod_eq_iff_lt (Nat.ne_of_gt hn),
      UInt8.lt_iff_toNat_lt]
  rw [decode?_encode_eq_mod, Option.some.injEq]
  obtain ⟨padding, extension, csrcCount, marker, payloadType, sequence, timestamp, ssrc⟩ := h
  simp only [mk.injEq, true_and, and_true]
  rw [hmod csrcCount 16 (by decide), hmod payloadType 128 (by decide)]

/-- What is read from a field is the number written there, in the bits that it has. -/
theorem value_decode?_encode (field : Field) (h : Header) (rest : Bytes) :
    (decode? (h.encode ++ rest)).map field.value = some (field.value h % 2 ^ field.width) := by
  have hflag (b : Bool) : b.toNat = b.toNat % 2 ^ 1 := by cases b <;> rfl
  rw [decode?_encode_eq_mod, Option.map_some, Option.some.injEq]
  cases field with
  | padding => exact hflag h.padding
  | extension => exact hflag h.extension
  | marker => exact hflag h.marker
  | csrcCount => exact UInt8.toNat_mod h.csrcCount 16
  | payloadType => exact UInt8.toNat_mod h.payloadType 128
  | sequence => exact (Nat.mod_eq_of_lt h.sequence.toNat_lt).symm
  | timestamp => exact (Nat.mod_eq_of_lt h.timestamp.toNat_lt).symm
  | ssrc => exact (Nat.mod_eq_of_lt h.ssrc.toNat_lt).symm

theorem encode_of_decode? {bytes : Bytes} {h : Header} (hd : decode? bytes = some h) :
    h.encode = bytes.take length := by
  unfold decode? at hd
  split at hd
  · rename_i b0 b1 b2 b3 b4 b5 b6 b7 b8 b9 b10 b11 rest
    split at hd
    · rename_i hversion
      cases hd
      simp only [encode, pack_first_byte b0 hversion, pack_second_byte b1, bytesOf16_of16,
        bytesOf32_of32]
      rfl
    · cases hd
  · cases hd

theorem isSome_decode?_iff (bytes : Bytes) : (decode? bytes).isSome ↔ Begins bytes := by
  unfold decode? Begins
  split
  · rename_i b0 b1 b2 b3 b4 b5 b6 b7 b8 b9 b10 b11 rest
    simp only [shiftRight_six_eq_two_iff, List.length_cons, length, List.head?_cons,
      Option.mem_def, Option.some.injEq, exists_eq_left']
    split <;> simp_all
  · rename_i hshort
    simp only [Option.isSome_none, Bool.false_eq_true, false_iff, not_and]
    intro hlength
    -- Twelve bytes can be named, so the pattern that was not met is met.
    match bytes, hlength with
    | b0 :: b1 :: b2 :: b3 :: b4 :: b5 :: b6 :: b7 :: b8 :: b9 :: b10 :: b11 :: rest, _ =>
      exact absurd rfl (hshort b0 b1 b2 b3 b4 b5 b6 b7 b8 b9 b10 b11 rest)

/-- Reading undoes writing and writing undoes reading. A header is read back whatever stands behind
it: every field as the low bits of the number written there, however the other fields are set. A
header is read from any bytes that begin one and from no others, and it is written as just these
bytes. -/
theorem reading_inverts_writing :
    (∀ (h : Header) (rest : Bytes), decode? (h.encode ++ rest) =
      some { h with csrcCount := h.csrcCount % 16, payloadType := h.payloadType % 128 }) ∧
    (∀ (h : Header) (rest : Bytes),
      decode? (h.encode ++ rest) = some h ↔ h.csrcCount < 16 ∧ h.payloadType < 128) ∧
    (∀ (field : Field) (h : Header) (rest : Bytes),
      (decode? (h.encode ++ rest)).map field.value = some (field.value h % 2 ^ field.width)) ∧
    (∀ bytes, Begins bytes ↔ ∃ h, decode? bytes = some h ∧ h.encode = bytes.take 12) ∧
    ∀ bytes, decode? bytes = none ↔ ¬ Begins bytes := by
  refine ⟨decode?_encode_eq_mod, decode?_encode_eq_self_iff, value_decode?_encode, ?_, ?_⟩
  · intro bytes
    rw [← isSome_decode?_iff, Option.isSome_iff_exists]
    constructor
    · rintro ⟨h, hd⟩
      exact ⟨h, hd, encode_of_decode? hd⟩
    · rintro ⟨h, hd, -⟩
      exact ⟨h, hd⟩
  · intro bytes
    rw [← isSome_decode?_iff, Option.not_isSome_iff_eq_none]

end Header

end RealTimeStreaming.Rtp
