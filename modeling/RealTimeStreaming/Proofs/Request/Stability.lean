import Mathlib.Tactic.ByContra
import RealTimeStreaming.Request.Parser

/-! Readers do not take back what they said. A reader that has come to a verdict on the
bytes so far, a value or an error, comes to the same verdict when more bytes stand behind
them. So a reader that has to wait would have waited on any shorter stretch too, and a run
of the parser that is cut short goes on exactly where one over all bytes would be. A line
is measured against one byte more than its limit; where that sum wraps only values are
kept, and the statements that need the sum ask for `Limits.NoWrap`. -/

namespace RealTimeStreaming

open Octet

/-- The bound on an unfinished line is a larger number than the limit it comes from. -/
def Limits.NoWrap (limits : Limits) : Prop :=
  limits.headerLine.toNat + 1 < UInt64.size

instance (limits : Limits) : Decidable limits.NoWrap :=
  inferInstanceAs (Decidable (_ < _))

/-- More bytes do not change a value that was read. -/
def KeepsValues {α : Type} (read : Bytes → Reading α) : Prop :=
  ∀ w v a n, read w = .complete a n → read (w ++ v) = .complete a n

/-- More bytes change neither a value that was read nor an error. -/
def KeepsVerdicts {α : Type} (read : Bytes → Reading α) : Prop :=
  ∀ w v, read w ≠ .needMore → read (w ++ v) = read w

namespace KeepsVerdicts

variable {α β : Type} {read : Bytes → Reading α}

theorem check (h : KeepsVerdicts read) (f : α → Except ParseError β) :
    KeepsVerdicts fun w => (read w).check f := by
  intro w v hr
  have hw : read w ≠ .needMore := by
    rintro he
    exact hr (by simp [he, Reading.check])
  simp only [h w v hw]

end KeepsVerdicts

theorem KeepsValues.check {α β : Type} {read : Bytes → Reading α} (h : KeepsValues read)
    (f : α → Except ParseError β) : KeepsValues fun w => (read w).check f := by
  intro w v b n hr
  obtain ⟨a, ha, hb⟩ := Reading.check_eq_complete.1 hr
  exact Reading.check_eq_complete.2 ⟨a, h w v a n ha, hb⟩

/-! ### Scans -/

/-- How far the leading bytes and the token behind them reach. -/
def tokenReach (lead : UInt8 → Bool) (w : Bytes) : Nat :=
  (w.takeWhile lead).length + ((w.dropWhile lead).takeWhile (!isSeparator ·)).length

theorem tokenReach_le (lead : UInt8 → Bool) (w : Bytes) : tokenReach lead w ≤ w.length := by
  have hl := length_takeWhile_add lead w
  have ht := length_takeWhile_le (!isSeparator ·) (w.dropWhile lead)
  unfold tokenReach
  omega

/-- Without a separator behind the token it reaches to the end. -/
theorem tokenReach_of_open {lead : UInt8 → Bool} {w : Bytes}
    (h : (w.dropWhile lead).dropWhile (!isSeparator ·) = []) : tokenReach lead w = w.length := by
  have hl := length_takeWhile_add lead w
  have ht := length_takeWhile_add (!isSeparator ·) (w.dropWhile lead)
  rw [h, List.length_nil] at ht
  unfold tokenReach
  omega

theorem tokenReach_append_of_open {lead : UInt8 → Bool} {w : Bytes} (v : Bytes)
    (h : (w.dropWhile lead).dropWhile (!isSeparator ·) = []) :
    w.length ≤ tokenReach lead (w ++ v) := by
  have hl := length_takeWhile_add lead w
  have ht := length_takeWhile_add (!isSeparator ·) (w.dropWhile lead)
  rw [h, List.length_nil] at ht
  unfold tokenReach
  rw [List.takeWhile_append, List.dropWhile_append]
  split
  · rw [List.length_append]
    omega
  · rename_i hne
    have hb : (w.dropWhile lead).isEmpty = false := by
      rw [List.isEmpty_eq_false_iff, ← List.length_pos_iff]
      omega
    rw [hb, if_neg (by simp), List.takeWhile_append, if_pos (by omega), List.length_append]
    omega

/-- Leading bytes more are reached across. -/
theorem tokenReach_append_lead {lead : UInt8 → Bool} {before : Bytes} (h : ∀ b ∈ before, lead b)
    (w : Bytes) : tokenReach lead (before ++ w) = before.length + tokenReach lead w := by
  simp only [tokenReach, List.takeWhile_append_of_pos h, List.dropWhile_append_of_pos h,
    List.length_append, Nat.add_assoc]

theorem scanToken_of_lt {kind : TokenKind} {limit : UInt64} {lead : UInt8 → Bool} {w : Bytes}
    (h : limit.toNat < tokenReach lead w) :
    scanToken kind limit lead w = .failed (.tooLong kind limit) := by
  have hr := tokenReach_le lead w
  simp only [scanToken]
  split
  · exact if_pos (by omega)
  · exact if_pos h

theorem scanToken_keepsVerdicts (kind : TokenKind) (limit : UInt64) (lead : UInt8 → Bool) :
    KeepsVerdicts (scanToken kind limit lead) := by
  intro w v h
  by_cases he : (w.dropWhile lead).dropWhile (!isSeparator ·) = []
  · have hlt : limit.toNat < w.length := by
      by_contra hle
      exact h (by simp [scanToken, he, hle])
    have hr := tokenReach_append_of_open v he
    rw [scanToken_of_lt (by omega), scanToken_of_lt (by rw [tokenReach_of_open he]; exact hlt)]
  · -- the separator behind the token is there already, so the bytes added lie behind it
    have hb : w.dropWhile lead ≠ [] := by
      intro hn
      exact he (by rw [hn]; rfl)
    have hl : (w ++ v).takeWhile lead = w.takeWhile lead := by
      rw [List.takeWhile_append, if_neg]
      have := length_takeWhile_add lead w
      have := List.length_pos_iff.2 hb
      omega
    have hd : (w ++ v).dropWhile lead = w.dropWhile lead ++ v := by
      rw [List.dropWhile_append, if_neg (by simpa using hb)]
    have ht : (w.dropWhile lead ++ v).takeWhile (!isSeparator ·) =
        (w.dropWhile lead).takeWhile (!isSeparator ·) := by
      rw [List.takeWhile_append, if_neg]
      have := length_takeWhile_add (!isSeparator ·) (w.dropWhile lead)
      have := List.length_pos_iff.2 he
      omega
    have hs : (w.dropWhile lead ++ v).dropWhile (!isSeparator ·) ≠ [] := by
      rw [List.dropWhile_append, if_neg (by simpa using he)]
      simp [he]
    simp only [scanToken, hl, hd, ht, List.isEmpty_iff, if_neg he, if_neg hs]

theorem length_le_withoutReturn (line : Bytes) :
    line.length ≤ (withoutReturn line).length + 1 := by
  unfold withoutReturn
  split
  · rw [List.length_dropLast]
    omega
  · omega

/-- A line feed that has arrived stays the first one. -/
theorem scanLine_append_of_mem {kind : TokenKind} {limit : UInt64} {w : Bytes}
    (h : w.dropWhile (· != lineFeed) ≠ []) (v : Bytes) :
    scanLine kind limit (w ++ v) = scanLine kind limit w := by
  have hl : (w ++ v).takeWhile (· != lineFeed) = w.takeWhile (· != lineFeed) := by
    rw [List.takeWhile_append, if_neg]
    have := length_takeWhile_add (· != lineFeed) w
    have := List.length_pos_iff.2 h
    omega
  have hd : (w ++ v).dropWhile (· != lineFeed) ≠ [] := by
    rw [List.dropWhile_append, if_neg (by simpa using h)]
    simp [h]
  simp only [scanLine, hl, List.isEmpty_iff, if_neg h, if_neg hd]

theorem scanLine_keepsValues (kind : TokenKind) (limit : UInt64) :
    KeepsValues (scanLine kind limit) := by
  intro w v line n h
  by_cases he : w.dropWhile (· != lineFeed) = []
  · simp only [scanLine, he, List.isEmpty_nil, if_true] at h
    split at h <;> cases h
  · rw [scanLine_append_of_mem he, h]

theorem toNat_add_one {limit : UInt64} (h : limit.toNat + 1 < UInt64.size) :
    (limit + 1).toNat = limit.toNat + 1 := by
  rw [UInt64.toNat_add, UInt64.toNat_one, Nat.mod_eq_of_lt (by simpa [UInt64.size] using h)]

/-- A line that is too long without its end is too long with it. -/
theorem scanLine_keepsVerdicts (kind : TokenKind) {limit : UInt64}
    (hl : limit.toNat + 1 < UInt64.size) : KeepsVerdicts (scanLine kind limit) := by
  intro w v h
  have hs := toNat_add_one hl
  by_cases he : w.dropWhile (· != lineFeed) = []
  · have hlt : limit.toNat + 1 < w.length := by
      by_contra hle
      exact h (by simp [scanLine, he, hs, hle])
    have hall := length_takeWhile_add (· != lineFeed) w
    rw [he, List.length_nil, Nat.add_zero] at hall
    have hw : scanLine kind limit w = .failed (.tooLong kind limit) := by
      simp [scanLine, he, hs, hlt]
    rw [hw]
    simp only [scanLine, hs]
    split
    · rw [if_pos (by rw [List.length_append]; omega)]
    · rw [if_pos]
      have hr := length_le_withoutReturn ((w ++ v).takeWhile (· != lineFeed))
      rw [List.takeWhile_append, if_pos hall, List.length_append] at hr
      rw [List.takeWhile_append, if_pos hall]
      omega
  · exact scanLine_append_of_mem he v

/-! ### Elements -/

theorem Method.read_keepsVerdicts (limits : Limits) : KeepsVerdicts (Method.read limits) :=
  (scanToken_keepsVerdicts _ _ _).check _

theorem readTarget_keepsVerdicts (limits : Limits) : KeepsVerdicts (readTarget limits) :=
  (scanToken_keepsVerdicts _ _ _).check _

theorem Version.read_keepsVerdicts : KeepsVerdicts Version.read := by
  intro w v h
  have hlen := length_takeWhile_add isSpace w
  by_cases hw : (w.takeWhile isSpace).length = w.length
  · -- only blanks so far: the verdict can only be that there are too many
    have hlt : Limits.versionLine.toNat < w.length := by
      by_contra hle
      exact h (by simp [Version.read, hw, hle, scanLine, Reading.check, Reading.shift])
    have hwv : ¬ ((w ++ v).takeWhile isSpace).length ≤ Limits.versionLine.toNat := by
      rw [List.takeWhile_append, if_pos hw, List.length_append]
      omega
    simp only [Version.read, hw, if_pos hlt, if_pos (Nat.lt_of_not_le hwv)]
  · have hl : (w ++ v).takeWhile isSpace = w.takeWhile isSpace := by
      rw [List.takeWhile_append, if_neg hw]
    have hd : (w ++ v).drop (w.takeWhile isSpace).length =
        w.drop (w.takeWhile isSpace).length ++ v := by
      rw [List.drop_append_of_le_length (by omega)]
    simp only [Version.read, hl, hd] at h ⊢
    split
    · rfl
    · rename_i hle
      rw [if_neg hle] at h
      have hk : KeepsVerdicts fun w => (scanLine .text Limits.versionLine w).check ofLine :=
        (scanLine_keepsVerdicts .text (by decide)).check ofLine
      refine congrArg (Reading.shift _) (hk (w.drop (w.takeWhile isSpace).length) v ?_)
      intro hn
      exact h (congrArg (Reading.shift _) hn)

theorem HeaderMap.readLine_keepsValues (limits : Limits) (m : HeaderMap) :
    KeepsValues (m.readLine limits) :=
  (scanLine_keepsValues _ _).check _

theorem HeaderMap.readLine_keepsVerdicts {limits : Limits} (hl : limits.NoWrap)
    (m : HeaderMap) : KeepsVerdicts (m.readLine limits) :=
  (scanLine_keepsVerdicts _ hl).check _

end RealTimeStreaming
