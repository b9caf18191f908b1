import RealTimeStreaming.Request.Error
import RealTimeStreaming.Text.Trim

/-! Cutting tokens and lines off the bytes that have arrived so far. A scan either
completes, fails because a size limit is passed, or has to wait, and then it has
consumed nothing: the same bytes are shown to it again with what arrived since. -/

namespace RealTimeStreaming

open Octet

/-- What reading one element came to. -/
inductive Reading (α : Type) where
  /-- The element ends outside the bytes so far. -/
  | needMore
  | complete (value : α) (consumed : Nat)
  | failed (error : ParseError)
deriving DecidableEq, Repr

namespace Reading

variable {α β : Type}

/-- Turns the value read into another or into an error. -/
def check (f : α → Except ParseError β) : Reading α → Reading β
  | .needMore => .needMore
  | .failed e => .failed e
  | .complete a n =>
    match f a with
    | .ok b => .complete b n
    | .error e => .failed e

/-- Counts `k` bytes that stood before the element. -/
def shift (k : Nat) : Reading α → Reading α
  | .complete a n => .complete a (k + n)
  | r => r

theorem check_eq_complete {f : α → Except ParseError β} {r : Reading α} {b : β} {n : Nat} :
    r.check f = .complete b n ↔ ∃ a, r = .complete a n ∧ f a = .ok b := by
  cases r with
  | needMore => simp [check]
  | failed e => simp [check]
  | complete a m =>
    cases h : f a with
    | ok c =>
      simp only [check, h, complete.injEq]
      exact ⟨fun ⟨hc, hm⟩ => ⟨a, ⟨rfl, hm⟩, hc ▸ h⟩, fun ⟨_, ⟨ha, hm⟩, hb⟩ => by simp_all⟩
    | error e =>
      simp only [check, h, complete.injEq, reduceCtorEq, false_iff]
      rintro ⟨_, ⟨rfl, -⟩, hb⟩
      simp_all

theorem shift_eq_complete {k n : Nat} {r : Reading α} {a : α} :
    r.shift k = .complete a n ↔ ∃ m, r = .complete a m ∧ n = k + m := by
  cases r <;> simp [shift, and_assoc, eq_comm]

end Reading

/-- Cuts off the token behind the leading bytes of class `lead`. It ends before the next
separator, which is left in place. The leading bytes count against the limit too. -/
def scanToken (kind : TokenKind) (limit : UInt64) (lead : UInt8 → Bool) (input : Bytes) :
    Reading Bytes :=
  let behind := input.dropWhile lead
  if (behind.dropWhile (!isSeparator ·)).isEmpty then
    if limit.toNat < input.length then .failed (.tooLong kind limit) else .needMore
  else
    let token := behind.takeWhile (!isSeparator ·)
    let finish := (input.takeWhile lead).length + token.length
    if limit.toNat < finish then .failed (.tooLong kind limit) else .complete token finish

/-- A line without the carriage return that may stand before its line feed. -/
def withoutReturn (line : Bytes) : Bytes :=
  if line.getLast? = some carriageReturn then line.dropLast else line

/-- Cuts off one line, ended by a line feed with or without a carriage return. An
unfinished line may be one byte over the limit, which leaves room for the carriage
return. -/
def scanLine (kind : TokenKind) (limit : UInt64) (input : Bytes) : Reading Bytes :=
  if (input.dropWhile (· != lineFeed)).isEmpty then
    if (limit + 1).toNat < input.length then .failed (.tooLong kind limit) else .needMore
  else
    let content := input.takeWhile (· != lineFeed)
    let line := withoutReturn content
    if limit.toNat < line.length then .failed (.tooLong kind limit)
    else .complete line (content.length + 1)

theorem length_takeWhile_add {α : Type} (p : α → Bool) (l : List α) :
    (l.takeWhile p).length + (l.dropWhile p).length = l.length := by
  rw [← List.length_append, List.takeWhile_append_dropWhile]

theorem length_takeWhile_le {α : Type} (p : α → Bool) (l : List α) :
    (l.takeWhile p).length ≤ l.length :=
  (List.takeWhile_sublist p).length_le

/-- A completed line is not empty on the wire and lies within the bytes shown. -/
theorem scanLine_bounds {kind : TokenKind} {limit : UInt64} {input line : Bytes} {n : Nat}
    (h : scanLine kind limit input = .complete line n) : 1 ≤ n ∧ n ≤ input.length := by
  simp only [scanLine] at h
  split at h
  · split at h <;> cases h
  · rename_i he
    split at h
    · cases h
    · cases h
      have hl := length_takeWhile_add (· != lineFeed) input
      have hp := List.length_pos_iff.2 (mt List.isEmpty_iff.2 he)
      omega

/-- A completed token leaves at least its separator. -/
theorem scanToken_lt {kind : TokenKind} {limit : UInt64} {lead : UInt8 → Bool}
    {input token : Bytes} {n : Nat} (h : scanToken kind limit lead input = .complete token n) :
    token.length ≤ n ∧ n < input.length := by
  simp only [scanToken] at h
  split at h
  · split at h <;> cases h
  · rename_i he
    split at h
    · cases h
    · cases h
      have hl := length_takeWhile_add lead input
      have ht := length_takeWhile_add (!isSeparator ·) (input.dropWhile lead)
      have hp := List.length_pos_iff.2 (mt List.isEmpty_iff.2 he)
      omega

end RealTimeStreaming
