import RealTimeStreaming.Proofs.Request.Faults

/-! How long a request may get while the parser still waits for its end. Every element has
a bound, and the room for headers bounds the lines that bring a new name. A line that
repeats a name takes no room, so nothing bounds these: what they do not account for is
bounded, and with them a request grows as long as one likes. -/

namespace RealTimeStreaming

open Octet

/-! ### Readers that wait -/

namespace Reading

variable {α β : Type}

theorem check_eq_needMore {f : α → Except ParseError β} {r : Reading α} :
    r.check f = .needMore ↔ r = .needMore := by
  cases r with
  | needMore => simp [check]
  | failed e => simp [check]
  | complete a n => cases h : f a <;> simp [check, h]

theorem shift_eq_needMore {k : Nat} {r : Reading α} : r.shift k = .needMore ↔ r = .needMore := by
  cases r <;> simp [shift]

end Reading

/-- The end of a token is waited for while no separator stands behind it, up to the limit. -/
theorem scanToken_eq_needMore_iff {kind : TokenKind} {limit : UInt64} {lead : UInt8 → Bool}
    {input : Bytes} :
    scanToken kind limit lead input = .needMore ↔
      (input.dropWhile lead).dropWhile (!isSeparator ·) = [] ∧ input.length ≤ limit.toNat := by
  simp only [scanToken, List.isEmpty_iff]
  split
  · rename_i he
    simp [he]
  · rename_i he
    split <;> simp [he]

/-- Where the sum of limit and return wraps, less is waited on. -/
theorem length_le_of_scanLine_eq_needMore {kind : TokenKind} {limit : UInt64} {input : Bytes}
    (h : scanLine kind limit input = .needMore) : input.length ≤ limit.toNat + 1 := by
  have hs : (limit + 1).toNat ≤ limit.toNat + 1 := by
    rw [UInt64.toNat_add]
    exact Nat.mod_le _ _
  simp only [scanLine] at h
  split at h
  · split at h
    · cases h
    · omega
  · split at h <;> cases h

/-- The most bytes of a first line behind its target: blanks, and a line with its break. -/
def Limits.versionRest : Nat :=
  2 * versionLine.toNat + 2

theorem length_lt_of_version_eq_needMore {input : Bytes} (h : Version.read input = .needMore) :
    input.length < Limits.versionRest := by
  simp only [Version.read] at h
  split at h
  · cases h
  · rw [Reading.shift_eq_needMore, Reading.check_eq_needMore] at h
    have hl := length_le_of_scanLine_eq_needMore h
    simp only [List.length_drop, Limits.versionRest] at hl ⊢
    omega

namespace Parser

variable {p q : Parser} {r s : Request} {w : Bytes} {n : Nat}

/-- The parser waits on fewer bytes than this at its present element. -/
def patience (p : Parser) : Nat :=
  match p.stage with
  | .method => p.limits.method.toNat + 1
  | .target => p.limits.uri.toNat + 1
  | .version => Limits.versionRest
  | .headers => p.limits.headerLine.toNat + 2
  | .body => p.bodyLength
  | .done => 0
  | .failed _ => 0

theorem length_lt_patience (hp : p.stage.isTerminal = false)
    (h : (p.step r w).2 = .needMore) : w.length < p.patience := by
  unfold step at h
  unfold patience
  split at h <;> rename_i hs <;> simp only [hs] at hp ⊢
  · have hr := Reading.check_eq_needMore.1 (store_eq_needMore h).1
    exact Nat.lt_succ_of_le (scanToken_eq_needMore_iff.1 hr).2
  · have hr := Reading.check_eq_needMore.1 (store_eq_needMore h).1
    exact Nat.lt_succ_of_le (scanToken_eq_needMore_iff.1 hr).2
  · exact length_lt_of_version_eq_needMore (store_eq_needMore h).1
  · split at h
    · rename_i hr
      exact Nat.lt_succ_of_le
        (length_le_of_scanLine_eq_needMore (Reading.check_eq_needMore.1 hr))
    · cases h
    · cases h
    · exact absurd h (endHeaders_ne_needMore p r _)
  · split at h
    · assumption
    · cases h
  · cases hp
  · cases hp

end Parser

/-! ### The lines read so far -/

/-- The most bytes of a first line, its line break included. -/
def Limits.firstLine (limits : Limits) : Nat :=
  limits.method.toNat + limits.uri.toNat + Limits.versionRest

/-- The most bytes of a header line, its line break included. -/
def Limits.wholeLine (limits : Limits) : Nat :=
  limits.headerLine.toNat + 2

section Lengths

variable {limits : Limits} {fields : List Header} {bytes : Bytes}

theorem MethodPart.length_le (h : MethodPart limits bytes) :
    bytes.length ≤ limits.method.toNat := by
  obtain ⟨lead, token, m, rfl, -, -, hle⟩ := h
  rwa [List.length_append]

theorem TargetPart.length_le (h : TargetPart limits bytes) :
    bytes.length ≤ limits.method.toNat + limits.uri.toNat := by
  obtain ⟨start, gap, token, rfl, hstart, -, -, -, -, hle⟩ := h
  rw [List.length_append, List.length_append]
  exact Nat.add_le_add hstart.length_le hle

theorem FirstLine.length_le (h : FirstLine limits bytes) : bytes.length ≤ limits.firstLine := by
  obtain ⟨start, space, version, rfl, hstart, -, -, hspace, hversion⟩ := h
  have hv := Nat.le_trans (length_le_withoutReturn version) (Nat.succ_le_succ hversion.fits)
  have hs := hstart.length_le
  simp only [List.length_append, List.length_singleton, Limits.firstLine, Limits.versionRest]
  omega

theorem HeadPart.length_le (h : HeadPart limits fields bytes) :
    bytes.length ≤ limits.firstLine + fields.length * limits.wholeLine := by
  obtain ⟨first, lines, rfl, hfirst, hlines⟩ := h
  suffices hl : (lines.flatMap (· ++ [lineFeed])).length ≤ fields.length * limits.wholeLine by
    rw [List.length_append]
    exact Nat.add_le_add hfirst.length_le hl
  induction hlines with
  | nil => exact Nat.zero_le _
  | @cons line f lines fields hline _ ih =>
    have hle := Nat.le_trans (length_le_withoutReturn line) (Nat.succ_le_succ hline.fits)
    simp only [List.flatMap_cons, List.length_append, List.length_cons, List.length_nil,
      Nat.succ_mul, Limits.wholeLine] at ih ⊢
    omega

end Lengths

/-! ### Requests that are not yet whole -/

/-- The most bytes of a request that is not yet whole and names no header twice: those of
the first line and of the lines there is room for, of one line more that is under way or
empty, and of the body. -/
def Limits.requestBound (limits : Limits) (capacity : Nat) : Nat :=
  limits.method.toNat + limits.uri.toNat + 65 + (capacity + 1) * limits.wholeLine +
    limits.body.toNat

/-- The bytes start with a first line, and of the header lines behind it more than `k` name a
header that a line before them has named. -/
def Repeats (limits : Limits) (k : Nat) (bytes : Bytes) : Prop :=
  ∃ fields head, HeadPart limits fields head ∧ head <+: bytes ∧
    k < fields.length - (distinct fields).length

/-- Only lines that repeat a name take the bytes past the bound on those that do not. -/
theorem HeadPart.length_le_or_repeats {limits : Limits} {fields : List Header}
    {head bytes : Bytes} {capacity : Nat} (h : HeadPart limits fields head)
    (hfit : (distinct fields).length ≤ capacity) (hhead : head <+: bytes)
    (hlen : bytes.length ≤ limits.requestBound fields.length) (k : Nat) :
    bytes.length ≤ limits.requestBound capacity + k * limits.wholeLine ∨
      Repeats limits k bytes := by
  by_cases hk : k < fields.length - (distinct fields).length
  · exact .inr ⟨fields, head, h, hhead, hk⟩
  · have hlines : (fields.length + 1) * limits.wholeLine ≤
        (capacity + 1) * limits.wholeLine + k * limits.wholeLine := by
      rw [← Nat.add_mul]
      exact Nat.mul_le_mul_right _ (by omega)
    left
    unfold Limits.requestBound at hlen ⊢
    omega

namespace Parser

variable {p : Parser} {r : Request} {w consumed : Bytes} {capacity : Nat}

/-- The bounds of the elements add up to one on all bytes shown to a waiting parser. -/
theorem Behind.length_le_or_repeats (h : p.Behind r capacity consumed w)
    (hw : w.length < p.patience) (k : Nat) :
    (consumed ++ w).length ≤ p.limits.requestBound capacity + k * p.limits.wholeLine ∨
      Repeats p.limits k (consumed ++ w) := by
  have hrest : Limits.versionRest = 66 := rfl
  have hlength : (consumed ++ w).length = consumed.length + w.length := List.length_append
  have hbare (hle : (consumed ++ w).length ≤
      p.limits.method.toNat + p.limits.uri.toNat + Limits.versionRest) :
      (consumed ++ w).length ≤ p.limits.requestBound capacity + k * p.limits.wholeLine := by
    have hline : p.limits.wholeLine ≤ (capacity + 1) * p.limits.wholeLine :=
      Nat.le_mul_of_pos_left _ (Nat.succ_pos _)
    unfold Limits.requestBound
    simp only [Limits.wholeLine] at hline ⊢
    omega
  cases hp : p.stage with
  | method =>
    simp only [Behind, patience, hp] at h hw
    have hnone : consumed.length = 0 := List.length_eq_zero_iff.2 h.1
    exact .inl (hbare (by omega))
  | target =>
    simp only [Behind, patience, hp] at h hw
    have hstart := h.2.1.length_le
    exact .inl (hbare (by omega))
  | version =>
    simp only [Behind, patience, hp] at h hw
    have hstart := h.2.1.length_le
    exact .inl (hbare (by omega))
  | headers =>
    simp only [Behind, patience, hp] at h hw
    obtain ⟨fields, -, hfit, hhead⟩ := h
    have hlen := hhead.length_le
    refine hhead.length_le_or_repeats hfit (List.prefix_append _ _) ?_ k
    simp only [Limits.requestBound, Limits.firstLine, Nat.succ_mul] at hlen ⊢
    simp only [Limits.wholeLine] at hlen ⊢
    omega
  | body =>
    simp only [Behind, patience, hp] at h hw
    obtain ⟨fields, head, last, rfl, hhead, hfit, hlast, hbody⟩ := h
    have hlen := hhead.length_le
    refine hhead.length_le_or_repeats hfit ?_ ?_ k
    · rw [List.append_assoc]
      exact List.prefix_append _ _
    simp only [Limits.requestBound, Limits.firstLine, Nat.succ_mul, List.length_append,
      List.length_singleton] at hlen hlength ⊢
    simp only [Limits.wholeLine] at hlen ⊢
    omega
  | done => simp [patience, hp] at hw
  | failed e => simp [patience, hp] at hw

/-- What a new parser waits on is bounded, up to repeated headers. -/
theorem length_le_or_repeats {limits : Limits} {x : Bytes}
    (h : (({ limits } : Parser).parse (.blank capacity) x).1.stage.isTerminal = false) (k : Nat) :
    x.length ≤ limits.requestBound capacity + k * limits.wholeLine ∨ Repeats limits k x := by
  have hnew : Behind { limits } (.blank capacity) capacity [] x := ⟨rfl, rfl⟩
  have hwaits := step_run { limits } (.blank capacity) x
  have hlimits := limits_run { limits } (.blank capacity) x
  rw [parse, List.drop_zero] at h
  have hopen (e : ParseError) :
      (({ limits } : Parser).run (.blank capacity) x).1.stage ≠ .failed e := by
    intro he
    rw [he] at h
    cases h
  have hbound := (hnew.run_of_open hopen).length_le_or_repeats
    (length_lt_patience h (congrArg Prod.snd hwaits)) k
  rw [hlimits, List.nil_append, List.take_append_drop] at hbound
  exact hbound

/-! ### Headers written again and again -/

/-- A header line that says what the headers hold already can stand any number of times. -/
theorem run_replicate {line : Bytes} (hp : p.stage = .headers)
    (hline : r.headers.readLine p.limits line = .complete (.stored r.headers) line.length)
    (k : Nat) :
    ∃ offset, p.run r (List.replicate k line).flatten = ({ p with offset }, r) := by
  have hstep (more : Bytes) : p.step r (line ++ more) = (r, .complete p line.length) := by
    simp only [step, hp, HeaderMap.readLine_keepsValues _ _ _ more _ _ hline]
  induction k generalizing p with
  | zero =>
    have hs : p.step r [] = (r, .needMore) := by
      simp only [step, hp]
      rfl
    exact ⟨p.offset, run_of_needMore hs⟩
  | succ k ih =>
    rw [List.replicate_succ, List.flatten_cons, run_of_complete (hstep _), List.drop_left]
    exact ih (p := { p with offset := p.offset + line.length }) hp hline fun more => by
      simp only [step, hp, HeaderMap.readLine_keepsValues _ _ _ more _ _ hline]

/-- No bound on a request follows from the limits and the room for headers: a parser may
wait on any number of bytes. -/
theorem not_bounded_while_waiting :
    ¬ ∀ (limits : Limits) (capacity : Nat), ∃ bound : Nat, ∀ x : Bytes, bound < x.length →
      (({ limits } : Parser).parse (.blank capacity) x).1.stage.isTerminal := by
  intro h
  obtain ⟨bound, hb⟩ := h {} 32
  let first := Text.utf8 "OPTIONS * RTSP/1.0\r\nCSeq: 1\r\n"
  let line := Text.utf8 "CSeq: 1\r\n"
  let lines := (List.replicate (bound + 1) line).flatten
  obtain ⟨p, r, hfirst⟩ : ∃ p r, ({} : Parser).run (.blank 32) first = (p, r) := ⟨_, _, rfl⟩
  have hp : p.stage = .headers ∧ p.offset = first.length ∧
      r.headers.readLine p.limits line = .complete (.stored r.headers) line.length := by
    obtain ⟨rfl, rfl⟩ := Prod.ext_iff.1 hfirst
    decide +kernel
  obtain ⟨offset, hlines⟩ := run_replicate hp.1 hp.2.2 (bound + 1)
  have hrun : ({} : Parser).parse (.blank 32) (first ++ lines) = ({ p with offset }, r) := by
    rw [parse, List.drop_zero, run_append (.inr (by simp [hfirst, hp.1])), hfirst]
    simp only [hp.2.1, Nat.sub_zero, List.drop_left]
    exact hlines
  have hlength : bound < (first ++ lines).length := by
    have hl : line.length = 9 := by decide
    simp only [lines, List.length_append, List.length_flatten, List.map_replicate,
      List.sum_replicate_nat, hl]
    omega
  have hdone := hb _ hlength
  rw [hrun] at hdone
  simp [hp.1, Stage.isTerminal] at hdone

end Parser

end RealTimeStreaming
