import RealTimeStreaming.Proofs.Request.Positions
import RealTimeStreaming.Proofs.Request.Waiting
import RealTimeStreaming.Request.Arithmetic

/-! The bound on a line whose end has not come, for every limit. It is a sum: one byte over the
limit, since the last byte so far may be a return that does not count. Below the largest limit the
sum is formed, every line that can still fit is waited for, and what is refused cannot fit any more.
At the largest limit, where no line is too long, the sum leaves the words. A machine that checks its
sums stops there; one that wraps them refuses every line that has begun and not ended. -/

namespace RealTimeStreaming

open Octet

section Scans

variable {arithmetic : Arithmetic} {kind : TokenKind} {limit : UInt64} {w : Bytes}

theorem findIdx?_lineFeed_eq_none_iff :
    w.findIdx? (· == lineFeed) = none ↔ lineFeed ∉ w := by
  rw [List.findIdx?_eq_none_iff]
  simp only [beq_eq_false_iff_ne, ne_eq]
  exact ⟨fun h hm => h lineFeed hm rfl, fun h b hb he => h (he ▸ hb)⟩

theorem scanLine_of_open (h : lineFeed ∉ w) :
    scanLine kind limit w =
      if (limit + 1).toNat < w.length then .failed (.tooLong kind limit) else .needMore := by
  have hplain := scanLine?_eq kind limit w
  rw [scanLine?, findIdx?_lineFeed_eq_none_iff.2 h] at hplain
  exact (Option.some.inj hplain).symm

theorem scanLine_eq_tooLong_iff (h : lineFeed ∉ w) :
    scanLine kind limit w = .failed (.tooLong kind limit) ↔ (limit + 1).toNat < w.length := by
  rw [scanLine_of_open h, ite_eq_left_iff]
  simp

theorem scanLine_eq_needMore_iff :
    scanLine kind limit w = .needMore ↔ lineFeed ∉ w ∧ w.length ≤ (limit + 1).toNat := by
  by_cases h : lineFeed ∈ w
  · have hended : (w.dropWhile (· != lineFeed)).isEmpty = false := by simpa using h
    simp only [scanLine, hended, Bool.false_eq_true, if_false, h, not_true_eq_false, false_and,
      iff_false]
    split <;> simp
  · rw [scanLine_of_open h, ite_eq_right_iff]
    simp [h]

/-- The position behind a byte at hand is a word. -/
theorem scanLineBy_of_mem (h : lineFeed ∈ w) (hw : w.length < UInt64.size)
    (arithmetic : Arithmetic) :
    scanLineBy arithmetic kind limit w = some (scanLine kind limit w) := by
  have hplain := scanLine?_eq kind limit w
  unfold scanLine? at hplain
  unfold scanLineBy
  cases hn : w.findIdx? (· == lineFeed) with
  | none => exact absurd h (findIdx?_lineFeed_eq_none_iff.1 hn)
  | some n =>
    have hlt := (List.findIdx?_eq_some_iff_findIdx_eq.1 hn).1
    have hbehind : n + 1 < UInt64.size := Nat.lt_of_le_of_lt hlt hw
    simp only [hn, slice?_to (Nat.le_of_lt hlt), Option.bind_eq_bind, Option.bind_some] at hplain
    rw [← hplain]
    simp only [Arithmetic.word?_of_lt hbehind, Option.map_some, UInt64.toNat_ofNat_of_lt' hbehind]
    split <;> rfl

theorem scanLineBy_of_open (h : lineFeed ∉ w) (arithmetic : Arithmetic) :
    scanLineBy arithmetic kind limit w =
      (arithmetic.word? (limit.toNat + 1)).map fun _ => scanLine kind limit w := by
  have hsum : UInt64.ofNat (limit.toNat + 1) = limit + 1 := by
    rw [UInt64.ofNat_add, UInt64.ofNat_toNat]
    rfl
  simp only [scanLineBy, findIdx?_lineFeed_eq_none_iff.2 h, scanLine_of_open h, Arithmetic.word?,
    hsum]
  split <;> rfl

theorem toNat_add_one_of_largest (h : limit.toNat + 1 = UInt64.size) : (limit + 1).toNat = 0 := by
  rw [UInt64.toNat_add, UInt64.toNat_one, h]
  rfl

/-- However a line that begins so ends, it is longer than the limit. -/
def Outgrows (limit : UInt64) (w : Bytes) : Prop :=
  ∀ rest, lineFeed ∉ rest → limit.toNat < (withoutReturn (w ++ rest)).length

/-- To end at once is the best that a line can do. -/
theorem outgrows_iff : Outgrows limit w ↔ limit.toNat < (withoutReturn w).length := by
  constructor
  · intro h
    have hends := h [] (List.not_mem_nil)
    rwa [List.append_nil] at hends
  · intro h rest _
    cases rest with
    | nil => rwa [List.append_nil]
    | cons b rest =>
      have hshorter := (withoutReturn_isPrefix w).length_le
      have hlonger := length_le_withoutReturn (w ++ b :: rest)
      rw [List.length_append, List.length_cons] at hlonger
      omega

/-- A line that has come to two bytes over the limit cannot fit; at one byte over, its last byte
decides. -/
theorem lt_length_iff_outgrows :
    limit.toNat + 1 < w.length ↔ Outgrows limit w ∧ w.length ≠ limit.toNat + 1 := by
  have hshorter := (withoutReturn_isPrefix w).length_le
  have hlonger := length_le_withoutReturn w
  rw [outgrows_iff]
  omega

end Scans

/-- Every limit but the largest is kept. A line that has ended is scanned without a sum that
leaves the words, if a machine can hold it. So is one that has not, under any limit but the largest:
its end is waited for up to one byte over the limit, and what cannot fit any more is refused, except
at this one byte over. Under the largest limit nothing that a machine can hold is too long, but
there checked sums stop the scan, and wrapped ones have it refuse whatever has begun. -/
theorem unfinished_line_bound (kind : TokenKind) (limit : UInt64) (w : Bytes) :
    (lineFeed ∈ w → w.length < UInt64.size → ∀ arithmetic,
      scanLineBy arithmetic kind limit w = some (scanLine kind limit w)) ∧
    (lineFeed ∉ w → limit.toNat + 1 < UInt64.size →
      (∀ arithmetic, scanLineBy arithmetic kind limit w = some (scanLine kind limit w)) ∧
      (scanLine kind limit w = .needMore ↔ w.length ≤ limit.toNat + 1) ∧
      (scanLine kind limit w = .failed (.tooLong kind limit) ↔
        Outgrows limit w ∧ w.length ≠ limit.toNat + 1)) ∧
    (lineFeed ∉ w → limit.toNat + 1 = UInt64.size →
      scanLineBy .checked kind limit w = none ∧
      scanLineBy .wrapping kind limit w = some (scanLine kind limit w) ∧
      (scanLine kind limit w = .needMore ↔ w = []) ∧
      (scanLine kind limit w = .failed (.tooLong kind limit) ↔ w ≠ []) ∧
      (Outgrows limit w → UInt64.size ≤ w.length)) := by
  refine ⟨scanLineBy_of_mem, ?_, ?_⟩
  · intro hopen hwrap
    refine ⟨fun arithmetic => ?_, ?_, ?_⟩
    · rw [scanLineBy_of_open hopen, Arithmetic.word?_of_lt hwrap, Option.map_some]
    · rw [scanLine_eq_needMore_iff, toNat_add_one hwrap, and_iff_right hopen]
    · rw [scanLine_eq_tooLong_iff hopen, toNat_add_one hwrap, lt_length_iff_outgrows]
  · intro hopen hlargest
    refine ⟨?_, scanLineBy_of_open hopen .wrapping, ?_, ?_, ?_⟩
    · rw [scanLineBy_of_open hopen, Arithmetic.word?_checked_of_le hlargest.ge,
        Option.map_none]
    · rw [scanLine_eq_needMore_iff, toNat_add_one_of_largest hlargest, and_iff_right hopen,
        Nat.le_zero, List.length_eq_zero_iff]
    · rw [scanLine_eq_tooLong_iff hopen, toNat_add_one_of_largest hlargest, List.length_pos_iff]
    · intro houtgrows
      have hlonger := outgrows_iff.1 houtgrows
      have hshorter := (withoutReturn_isPrefix w).length_le
      omega

/-- Eight bytes, the last of them a return: with a limit of seven waited for, and read once they are
ended; refused with one of six, under which they cannot fit. Under the largest limit they can, and a
machine that checks its sums stops at them where one that wraps them refuses. -/
theorem unfinished_line_bound_cut_field :
    let w := Text.utf8 "CSeq: 1\r"
    let largest : UInt64 := .ofNat (UInt64.size - 1)
    (lineFeed ∉ w ∧ (7 : UInt64).toNat + 1 < UInt64.size ∧ largest.toNat + 1 = UInt64.size) ∧
    (lineFeed ∈ w ++ [lineFeed] ∧ (w ++ [lineFeed]).length < UInt64.size) ∧
    scanLineBy .checked .text 7 w = some .needMore ∧
    scanLineBy .checked .text 7 (w ++ [lineFeed]) =
      some (.complete (Text.utf8 "CSeq: 1") 9) ∧
    (scanLineBy .checked .text 6 w = some (.failed (.tooLong .text 6)) ∧ Outgrows 6 w) ∧
    scanLineBy .checked .text largest w = none ∧
      scanLineBy .wrapping .text largest w = some (.failed (.tooLong .text largest)) ∧
      ¬ Outgrows largest w := by
  intro w largest
  have hopen : lineFeed ∉ w := by decide +kernel
  have hlargest : largest.toNat + 1 = UInt64.size := by decide +kernel
  have hended : lineFeed ∈ w ++ [lineFeed] := by decide +kernel
  have hfits : (w ++ [lineFeed]).length < UInt64.size := by decide +kernel
  obtain ⟨hline, -⟩ := unfinished_line_bound .text 7 (w ++ [lineFeed])
  obtain ⟨-, hseven, -⟩ := unfinished_line_bound .text 7 w
  obtain ⟨-, hsix, -⟩ := unfinished_line_bound .text 6 w
  obtain ⟨-, -, hmost⟩ := unfinished_line_bound .text largest w
  obtain ⟨hscan, hwaits, -⟩ := hseven hopen (by decide)
  obtain ⟨hscan', -, hrefuses⟩ := hsix hopen (by decide)
  obtain ⟨hstops, hwraps, -, hbegun, houtgrows⟩ := hmost hopen hlargest
  have hover : scanLine .text 6 w = .failed (.tooLong .text 6) := by decide +kernel
  refine ⟨⟨hopen, by decide, hlargest⟩, ⟨hended, hfits⟩, ?_, ?_, ⟨?_, ?_⟩, hstops, ?_, ?_⟩
  · rw [hscan, hwaits.2 (by decide +kernel)]
  · rw [hline hended hfits]
    decide +kernel
  · rw [hscan', hover]
  · exact (hrefuses.1 hover).1
  · rw [hwraps, hbegun.2 (by decide +kernel)]
  · exact fun h => absurd (houtgrows h) (by decide +kernel)

/-- A begun header line under the largest limit. It has seven bytes and its end is yet to come, but a
scan that wraps its sums refuses it and one that checks them stops; with its end it is read. -/
theorem begun_field_refused_under_largest_limit :
    let w := Text.utf8 "CSeq: 1"
    let largest : UInt64 := .ofNat (UInt64.size - 1)
    let empty := HeaderMap.empty 8
    lineFeed ∉ w ∧ w.length ≤ largest.toNat ∧
      scanLineBy .wrapping .text largest w = some (.failed (.tooLong .text largest)) ∧
      scanLineBy .checked .text largest w = none ∧
      empty.readLineBy .checked { headerLine := largest } w = none ∧
      scanLineBy .checked .text largest (w ++ [lineFeed]) = some (.complete w 8) := by
  decide +kernel

/-- Under any limit but the largest no machine stops. -/
theorem Parser.runBy_of_noWrap {p : Parser} (h : p.limits.NoWrap) (r : Request) {w : Bytes}
    (hw : w.length < UInt64.size) (arithmetic : Arithmetic) :
    p.runBy arithmetic r w = some (p.run r w) := by
  apply runBy_of_stepBy
  intro q s rest hlimits hrest
  unfold stepBy
  split
  · have hwrap : q.limits.headerLine.toNat + 1 < UInt64.size := by
      rw [hlimits]
      exact h
    have hscan : scanLineBy arithmetic .text q.limits.headerLine rest =
        some (scanLine .text q.limits.headerLine rest) := by
      by_cases hended : lineFeed ∈ rest
      · exact scanLineBy_of_mem hended (Nat.lt_of_le_of_lt hrest.length_le hw) arithmetic
      · rw [scanLineBy_of_open hended, Arithmetic.word?_of_lt hwrap, Option.map_some]
    rw [HeaderMap.readLineBy, hscan, Option.map_some, Option.map_some]
  · rfl

end RealTimeStreaming
