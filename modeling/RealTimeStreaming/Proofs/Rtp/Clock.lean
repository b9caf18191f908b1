import Mathlib.Algebra.Order.Floor.Semifield
import Mathlib.Data.Rat.Floor
import Mathlib.Tactic.Linarith
import Mathlib.Tactic.Positivity
import RealTimeStreaming.Rtp.Timestamp

/-! The clock of a stream, told from microseconds. The units that have passed are counted in full
and cut to 32 bits last, so a whole second is always worth the rate, two stamps are as far apart as
the times they were made from, to within a unit, and neither changes where the stamps wrap. The
count takes 96 bits at most before it is divided. -/

namespace RealTimeStreaming.Rtp.Timestamp

/-- The units of a clock in so many microseconds, rounded down and not wrapped. -/
def ticks (rate : UInt32) (us : Nat) : Nat :=
  us * rate.toNat / 1000000

theorem toClock_microseconds (us : UInt64) (rate : UInt32) :
    (microseconds us).toClock rate = .ofNat (ticks rate us.toNat) :=
  rfl

theorem ticks_add_seconds (rate : UInt32) (us seconds : Nat) :
    ticks rate (us + seconds * 1000000) = ticks rate us + seconds * rate.toNat := by
  unfold ticks
  rw [Nat.add_mul, Nat.mul_right_comm, Nat.add_mul_div_right _ _ (by decide)]

theorem ticks_mono (rate : UInt32) {us later : Nat} (h : us ≤ later) :
    ticks rate us ≤ ticks rate later :=
  Nat.div_le_div_right (Nat.mul_le_mul_right _ h)

theorem ticks_eq_floor (rate : UInt32) (us : Nat) :
    ticks rate us = ⌊(us * rate.toNat / 1000000 : ℚ)⌋₊ := by
  have h := Nat.floor_div_eq_div (K := ℚ) (us * rate.toNat) 1000000
  rw [ticks, ← h]
  push_cast
  rfl

/-- The two roundings take less than a unit off together. -/
theorem abs_ticks_sub_lt_one (rate : UInt32) (us later : Nat) :
    |(ticks rate later - ticks rate us : ℚ) - (later - us) * rate.toNat / 1000000| < 1 := by
  have hfloor (n : Nat) : (ticks rate n : ℚ) ≤ n * rate.toNat / 1000000 ∧
      (n * rate.toNat / 1000000 : ℚ) < ticks rate n + 1 := by
    rw [ticks_eq_floor]
    exact ⟨Nat.floor_le (by positivity), Nat.lt_floor_add_one _⟩
  obtain ⟨hus, hus'⟩ := hfloor us
  obtain ⟨hlater, hlater'⟩ := hfloor later
  rw [sub_mul, sub_div, abs_lt]
  constructor <;> linarith

theorem toClock_sub (rate : UInt32) {us later : UInt64} (h : us ≤ later) :
    (microseconds later).toClock rate - (microseconds us).toClock rate =
      .ofNat (ticks rate later.toNat - ticks rate us.toNat) := by
  rw [toClock_microseconds, toClock_microseconds,
    UInt32.ofNat_sub (ticks_mono rate (UInt64.le_iff_toNat_le.1 h))]

/-! ### The count in words -/

/-- The count in words of `width` bits, cut to 32 bits at the end. -/
def toClockIn (width : Nat) (us : UInt64) (rate : UInt32) : UInt32 :=
  .ofBitVec <| BitVec.setWidth 32 <|
    us.toBitVec.setWidth width * rate.toBitVec.setWidth width / BitVec.ofNat width 1000000

theorem product_lt (us : UInt64) (rate : UInt32) : us.toNat * rate.toNat < 2 ^ 96 := by
  have h := Nat.mul_lt_mul'' us.toNat_lt rate.toNat_lt
  rwa [← Nat.pow_add] at h

section Width

variable {width : Nat}

theorem lt_two_pow_of_width {n : Nat} (h : 96 ≤ width) (hn : n < 2 ^ 96) : n < 2 ^ width :=
  Nat.lt_of_lt_of_le hn (Nat.pow_le_pow_right (by decide) h)

theorem toNat_setWidth_us (h : 96 ≤ width) (us : UInt64) :
    (us.toBitVec.setWidth width).toNat = us.toNat := by
  have hus := us.toNat_lt
  rw [BitVec.toNat_setWidth, UInt64.toNat_toBitVec,
    Nat.mod_eq_of_lt (lt_two_pow_of_width h (by omega))]

theorem toNat_setWidth_rate (h : 96 ≤ width) (rate : UInt32) :
    (rate.toBitVec.setWidth width).toNat = rate.toNat := by
  have hrate := rate.toNat_lt
  rw [BitVec.toNat_setWidth, UInt32.toNat_toBitVec,
    Nat.mod_eq_of_lt (lt_two_pow_of_width h (by omega))]

theorem umulOverflow_eq_false (h : 96 ≤ width) (us : UInt64) (rate : UInt32) :
    BitVec.umulOverflow (us.toBitVec.setWidth width) (rate.toBitVec.setWidth width) = false := by
  rw [BitVec.umulOverflow, toNat_setWidth_us h, toNat_setWidth_rate h, decide_eq_false_iff_not,
    Nat.not_le]
  exact lt_two_pow_of_width h (product_lt us rate)

/-- Ninety-six bits hold every product. -/
theorem toClockIn_eq (h : 96 ≤ width) (us : UInt64) (rate : UInt32) :
    toClockIn width us rate = (microseconds us).toClock rate := by
  apply UInt32.toNat_inj.1
  rw [toClockIn, toClock_microseconds, UInt32.toNat_ofBitVec, BitVec.toNat_setWidth,
    BitVec.toNat_udiv, BitVec.toNat_mul, toNat_setWidth_us h, toNat_setWidth_rate h,
    Nat.mod_eq_of_lt (lt_two_pow_of_width h (product_lt us rate)), BitVec.toNat_ofNat,
    Nat.mod_eq_of_lt (lt_two_pow_of_width h (by decide)), UInt32.toNat_ofNat']
  rfl

/-- Ninety-five do not. -/
example : BitVec.umulOverflow ((0xFFFFFFFFFFFFFFFF : UInt64).toBitVec.setWidth 95)
    ((0xFFFFFFFF : UInt32).toBitVec.setWidth 95) = true := by
  decide

end Width

/-- Stamps keep pace with the time they are told from, at every rate and across every wrap. No
product leaves 128 bits. A stamp is the units passed by then, rounded down and wrapped; so many
seconds later it is so many times the rate further on; and two stamps differ, but for wraps, by a
whole number less than one unit off what has passed in between. -/
theorem toClock_keeps_pace (rate : UInt32) (us : UInt64) :
    BitVec.umulOverflow (us.toBitVec.setWidth 128) (rate.toBitVec.setWidth 128) = false ∧
    toClockIn 128 us rate = (microseconds us).toClock rate ∧
    ((microseconds us).toClock rate).toNat = us.toNat * rate.toNat / 1000000 % 2 ^ 32 ∧
    (∀ seconds : Nat, us.toNat + seconds * 1000000 < 2 ^ 64 →
      (microseconds (us + .ofNat (seconds * 1000000))).toClock rate =
        (microseconds us).toClock rate + .ofNat seconds * rate) ∧
    ∀ later : UInt64, us ≤ later → ∃ passed : Nat,
      (microseconds later).toClock rate - (microseconds us).toClock rate = .ofNat passed ∧
      |(passed : ℚ) - (later.toNat - us.toNat) * rate.toNat / 1000000| < 1 := by
  refine ⟨umulOverflow_eq_false (by decide) us rate, toClockIn_eq (by decide) us rate, ?_, ?_, ?_⟩
  · rw [toClock_microseconds, UInt32.toNat_ofNat', ticks]
  · intro seconds hfits
    have hlater : (us + .ofNat (seconds * 1000000)).toNat = us.toNat + seconds * 1000000 := by
      rw [UInt64.toNat_add, UInt64.toNat_ofNat', Nat.add_mod_mod, Nat.mod_eq_of_lt hfits]
    rw [toClock_microseconds, toClock_microseconds, hlater, ticks_add_seconds, UInt32.ofNat_add,
      UInt32.ofNat_mul, UInt32.ofNat_toNat]
  · intro later h
    refine ⟨_, toClock_sub rate h, ?_⟩
    rw [Nat.cast_sub (ticks_mono rate (UInt64.le_iff_toNat_le.1 h))]
    exact abs_ticks_sub_lt_one rate us.toNat later.toNat

/-- The last microsecond before the stamps of a 90 kHz clock wrap for the first time, a time three
seconds behind it, and the largest time there is. -/
theorem toClock_keeps_pace_across_wraps :
    let us : UInt64 := 47721858844
    let largest : UInt64 := 0xFFFFFFFFFFFFFFFF
    us.toNat + 3 * 1000000 < 2 ^ 64 ∧ us ≤ largest ∧
      (microseconds us).toClock 90000 = 0xFFFFFFFF ∧
      (microseconds (us + 3000000)).toClock 90000 = 269999 ∧
      ∃ passed : Nat, (microseconds largest).toClock 90000 - 0xFFFFFFFF = .ofNat passed ∧
        |(passed : ℚ) - (largest.toNat - us.toNat) * (90000 : UInt32).toNat / 1000000| < 1 := by
  intro us largest
  have hfits : us.toNat + 3 * 1000000 < 2 ^ 64 := by decide
  have hle : us ≤ largest := by decide
  obtain ⟨-, -, hstamp, hseconds, hpassed⟩ := toClock_keeps_pace 90000 us
  have hus : (microseconds us).toClock 90000 = 0xFFFFFFFF :=
    UInt32.toNat_inj.1 (hstamp.trans (by decide))
  have hlater := hseconds 3 hfits
  rw [hus] at hlater
  obtain ⟨passed, hdiffer, hclose⟩ := hpassed largest hle
  rw [hus] at hdiffer
  exact ⟨hfits, hle, hus, hlater, passed, hdiffer, hclose⟩

end RealTimeStreaming.Rtp.Timestamp
