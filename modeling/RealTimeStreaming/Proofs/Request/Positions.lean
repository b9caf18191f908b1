import RealTimeStreaming.Proofs.Request.Resumption
import RealTimeStreaming.Proofs.Text.Parts

/-! Readers that go by positions. Each finds where an element ends and takes it out by slices, and a
slice that is not within the bytes at hand is refused. None is ever refused: by positions or not,
the same element is read. The loop over them may not go round more often than it is told, and
six rounds more than there are bytes to read are enough. -/

namespace RealTimeStreaming

open Octet

/-! ### Slices -/

/-- The bytes from `start` up to `stop`, if all of them are there. -/
def slice? (bytes : Bytes) (start stop : Nat) : Option Bytes :=
  if start ≤ stop ∧ stop ≤ bytes.length then some ((bytes.take stop).drop start) else none

theorem slice?_eq_some_iff {bytes part : Bytes} {start stop : Nat} :
    slice? bytes start stop = some part ↔
      start ≤ stop ∧ stop ≤ bytes.length ∧ part = (bytes.take stop).drop start := by
  unfold slice?
  split
  · rename_i h
    simp [h.1, h.2, eq_comm]
  · rename_i h
    simp only [reduceCtorEq, false_iff]
    exact fun hin => h ⟨hin.1, hin.2.1⟩

theorem slice?_to {bytes : Bytes} {n : Nat} (h : n ≤ bytes.length) :
    slice? bytes 0 n = some (bytes.take n) :=
  slice?_eq_some_iff.2 ⟨Nat.zero_le n, h, rfl⟩

theorem slice?_from {bytes : Bytes} {n : Nat} (h : n ≤ bytes.length) :
    slice? bytes n bytes.length = some (bytes.drop n) :=
  slice?_eq_some_iff.2 ⟨h, Nat.le_refl _, by rw [List.take_length]⟩

/-- What the first position of a class, if there is one, says about the bytes around it. -/
theorem findIdx?_cases (p : UInt8 → Bool) (bytes : Bytes) :
    (bytes.findIdx? p = none ∧ bytes.dropWhile (!p ·) = []) ∨
      ∃ n, bytes.findIdx? p = some n ∧ n < bytes.length ∧
        bytes.takeWhile (!p ·) = bytes.take n ∧ bytes.dropWhile (!p ·) = bytes.drop n := by
  rw [List.takeWhile_eq_take_findIdx_not, List.dropWhile_eq_drop_findIdx_not]
  simp only [Bool.not_not]
  cases hn : bytes.findIdx? p with
  | none =>
    have hend := List.findIdx?_eq_none_iff_findIdx_eq.1 hn
    exact .inl ⟨rfl, by rw [hend, List.drop_length]⟩
  | some n =>
    obtain ⟨hlt, hfirst⟩ := List.findIdx?_eq_some_iff_findIdx_eq.1 hn
    exact .inr ⟨n, rfl, hlt, by rw [hfirst], by rw [hfirst]⟩

/-! ### Elements -/

def scanToken? (kind : TokenKind) (limit : UInt64) (lead : UInt8 → Bool) (input : Bytes) :
    Option (Reading Bytes) := do
  let start := (input.takeWhile lead).length
  let rest ← slice? input start input.length
  match rest.findIdx? isSeparator with
  | none => return if limit.toNat < input.length then .failed (.tooLong kind limit) else .needMore
  | some length =>
    if limit.toNat < start + length then return .failed (.tooLong kind limit)
    else return .complete (← slice? rest 0 length) (start + length)

theorem scanToken?_eq (kind : TokenKind) (limit : UInt64) (lead : UInt8 → Bool) (input : Bytes) :
    scanToken? kind limit lead input = some (scanToken kind limit lead input) := by
  have hstart := slice?_from (length_takeWhile_le lead input)
  rw [Text.drop_length_takeWhile] at hstart
  simp only [scanToken?, hstart, Option.bind_eq_bind, Option.bind_some, scanToken]
  obtain ⟨hnone, hopen⟩ | ⟨n, hn, hlt, htoken, hrest⟩ :=
    findIdx?_cases isSeparator (input.dropWhile lead)
  · simp only [hnone, hopen, List.isEmpty_nil, if_true]
    rfl
  · have hne : ((input.dropWhile lead).drop n).isEmpty = false := by
      simp only [List.isEmpty_eq_false_iff, ne_eq, List.drop_eq_nil_iff]
      omega
    have hlength : ((input.dropWhile lead).take n).length = n := by
      rw [List.length_take]
      omega
    simp only [hn, slice?_to (Nat.le_of_lt hlt), htoken, hrest, hne, hlength, Bool.false_eq_true,
      if_false]
    split <;> rfl

def scanLine? (kind : TokenKind) (limit : UInt64) (input : Bytes) : Option (Reading Bytes) :=
  match input.findIdx? (· == lineFeed) with
  | none => some (if (limit + 1).toNat < input.length then .failed (.tooLong kind limit)
      else .needMore)
  | some n => do
    let line := withoutReturn (← slice? input 0 n)
    return if limit.toNat < line.length then .failed (.tooLong kind limit)
      else .complete line (n + 1)

theorem scanLine?_eq (kind : TokenKind) (limit : UInt64) (input : Bytes) :
    scanLine? kind limit input = some (scanLine kind limit input) := by
  unfold scanLine? scanLine
  obtain ⟨hnone, hopen⟩ | ⟨n, hn, hlt, hline, hrest⟩ := findIdx?_cases (· == lineFeed) input
  · simp only [hnone, bne, hopen, List.isEmpty_nil, if_true]
  · have hne : (input.drop n).isEmpty = false := by
      simp only [List.isEmpty_eq_false_iff, ne_eq, List.drop_eq_nil_iff]
      omega
    have hlength : (input.take n).length = n := by
      rw [List.length_take]
      omega
    simp only [hn, slice?_to (Nat.le_of_lt hlt), bne, hline, hrest, hne, hlength,
      Bool.false_eq_true, if_false]
    rfl

/-- Turns the value read into another or into an error, by a function that may be refused a
slice. -/
def Reading.check? {α β : Type} (f : α → Option (Except ParseError β)) :
    Reading α → Option (Reading β)
  | .needMore => some .needMore
  | .failed e => some (.failed e)
  | .complete a n => (f a).map fun checked => (Reading.complete a n).check fun _ => checked

theorem Reading.check?_eq {α β : Type} {f : α → Option (Except ParseError β)}
    {g : α → Except ParseError β} (h : ∀ a, f a = some (g a)) (reading : Reading α) :
    reading.check? f = some (reading.check g) := by
  cases reading with
  | needMore => rfl
  | failed e => rfl
  | complete a n =>
    simp only [check?, h, Option.map_some]
    rfl

def Method.read? (limits : Limits) (input : Bytes) : Option (Reading Method) := do
  return (← scanToken? .identifier limits.method isSeparator input).check Method.ofToken

def readTarget? (limits : Limits) (input : Bytes) : Option (Reading String) := do
  return (← scanToken? .requestUri limits.uri isSpace input).check targetOfToken

def Version.read? (input : Bytes) : Option (Reading Version) := do
  let lead := (input.takeWhile isSpace).length
  if Limits.versionLine.toNat < lead then return .failed (.tooLong .text Limits.versionLine)
  else
    let line ← scanLine? .text Limits.versionLine (← slice? input lead input.length)
    return (line.check Version.ofLine).shift lead

theorem Version.read?_eq (input : Bytes) : Version.read? input = some (Version.read input) := by
  have hlead := slice?_from (length_takeWhile_le isSpace input)
  unfold Version.read? Version.read
  simp only [hlead, Option.bind_eq_bind, Option.bind_some, scanLine?_eq]
  split <;> rfl

def Header.ofLine? (line : Bytes) : Option (Except ParseError Header) :=
  match line.findIdx? (· == colon) with
  | none => some (.error (.literal ":" line))
  | some n => do
    let name := Text.trimEnd isBlank (← slice? line 0 n)
    if !name.isEmpty && name.all isNameChar then
      let value := Text.trim isBlank (← slice? line (n + 1) line.length)
      match Text.ofUtf8? value with
      | some text => return .ok ⟨Text.ofAscii name, text⟩
      | none => return .error (.token .text value)
    else return .error (.token .headerName name)

theorem cutAt_eq_findIdx? (sep : UInt8) (line : Bytes) :
    Text.cutAt sep line =
      (line.findIdx? (· == sep)).map fun n => (line.take n, line.drop (n + 1)) := by
  induction line with
  | nil => rfl
  | cons b rest ih =>
    rw [Text.cutAt, List.findIdx?_cons]
    split
    · rfl
    · simp only [ih, Option.map_map]
      rfl

theorem Header.ofLine?_eq (line : Bytes) : Header.ofLine? line = some (Header.ofLine line) := by
  unfold Header.ofLine? Header.ofLine
  rw [cutAt_eq_findIdx?]
  cases hn : line.findIdx? (· == colon) with
  | none => rfl
  | some n =>
    have hlt := (List.findIdx?_eq_some_iff_findIdx_eq.1 hn).1
    simp only [slice?_to (Nat.le_of_lt hlt), slice?_from hlt, Option.bind_eq_bind,
      Option.bind_some, Option.map_some]
    split
    · split <;> rename_i htext <;> simp only [htext] <;> rfl
    · rfl

def HeaderMap.storeLine? (m : HeaderMap) (line : Bytes) :
    Option (Except ParseError HeaderLine) :=
  if line.isEmpty then some (.ok .blank)
  else do
    let header ← Header.ofLine? line
    return do
      let h ← header
      let (m, _) ← m.insert h.name h.value
      return .stored m

theorem HeaderMap.storeLine?_eq (m : HeaderMap) (line : Bytes) :
    m.storeLine? line = some (m.storeLine line) := by
  unfold storeLine? storeLine
  rw [Header.ofLine?_eq]
  split <;> rfl

def HeaderMap.readLine? (limits : Limits) (m : HeaderMap) (input : Bytes) :
    Option (Reading HeaderLine) := do
  (← scanLine? .text limits.headerLine input).check? m.storeLine?

theorem HeaderMap.readLine?_eq (limits : Limits) (m : HeaderMap) (input : Bytes) :
    m.readLine? limits input = some (m.readLine limits input) := by
  rw [readLine?, scanLine?_eq]
  exact Reading.check?_eq m.storeLine?_eq _

/-! ### Rounds of the parser -/

namespace Parser

variable {p q : Parser} {r s : Request} {window : Bytes} {n : Nat}

/-- Reads the next element by positions. -/
def step? (p : Parser) (r : Request) (window : Bytes) : Option (Request × Reading Parser) :=
  match p.stage with
  | .method => do
    let r := r.clear
    return store (← Method.read? p.limits window) r ({ r with method := · })
      { p with stage := .target }
  | .target => do
    return store (← readTarget? p.limits window) r ({ r with uri := · })
      { p with stage := .version }
  | .version => do
    return store (← Version.read? window) r ({ r with version := · }) { p with stage := .headers }
  | .headers => do
    match ← r.headers.readLine? p.limits window with
    | .needMore => return (r, .needMore)
    | .failed e => return (r, .failed e)
    | .complete (.stored headers) n => return ({ r with headers }, .complete p n)
    | .complete .blank n => return p.endHeaders r n
  | .body =>
    if window.length < p.bodyLength then some (r, .needMore)
    else do
      let body ← slice? window 0 p.bodyLength
      return ({ r with body }, .complete { p with stage := .done } p.bodyLength)
  | .done => some (r, .needMore)
  | .failed _ => some (r, .needMore)

/-- No step is refused a slice. -/
theorem step?_eq (p : Parser) (r : Request) (window : Bytes) :
    p.step? r window = some (p.step r window) := by
  unfold step? step
  cases p.stage with
  | method => simp only [Method.read?, scanToken?_eq]; rfl
  | target => simp only [readTarget?, scanToken?_eq]; rfl
  | version => simp only [Version.read?_eq]; rfl
  | headers =>
    simp only [HeaderMap.readLine?_eq, Option.bind_eq_bind, Option.bind_some]
    cases HeaderMap.readLine p.limits r.headers window with
    | complete line n => cases line <;> rfl
    | _ => rfl
  | body =>
    by_cases hshort : window.length < p.bodyLength
    · simp only [if_pos hshort]
    · simp only [if_neg hshort, slice?_to (Nat.le_of_not_lt hshort)]
      rfl
  | done => rfl
  | failed e => rfl

/-- Goes on with the request by positions, within so many rounds. -/
def parseWithin : (rounds : Nat) → Parser → Request → Bytes → Option (Parser × Request)
  | 0, _, _, _ => none
  | rounds + 1, p, r, input => do
    match ← p.step? r (input.drop p.offset) with
    | (r, .needMore) => return (p, r)
    | (r, .failed e) => return ({ p with stage := .failed e }, r)
    | (r, .complete q n) => parseWithin rounds { q with offset := p.offset + n } r input

/-- The bytes and the elements that are left pay for every round but the last one. -/
theorem parseWithin_eq_parse {rounds : Nat} {input : Bytes}
    (h : (input.drop p.offset).length + p.stage.rank < rounds) (r : Request) :
    p.parseWithin rounds r input = some (p.parse r input) := by
  induction rounds generalizing p r with
  | zero => omega
  | succ rounds ih =>
    rw [parseWithin, step?_eq, parse]
    rcases hstep : p.step r (input.drop p.offset) with ⟨s, reading⟩
    cases reading with
    | needMore => rw [run_of_needMore hstep]; rfl
    | failed e => rw [run_of_failed hstep]; rfl
    | complete q n =>
      have hless := step_progress hstep
      rw [List.drop_drop] at hless
      rw [run_of_complete hstep, List.drop_drop]
      exact ih (p := { q with offset := p.offset + n }) (by dsimp only; omega) s

/-- Six rounds more than there are bytes are enough for any parser. -/
theorem parseWithin_length_add_six (p : Parser) (r : Request) (input : Bytes) :
    p.parseWithin (input.length + 6) r input = some (p.parse r input) := by
  have hrank : p.stage.rank ≤ 5 := by cases p.stage <;> simp [Stage.rank]
  refine parseWithin_eq_parse ?_ r
  rw [List.length_drop]
  omega

end Parser

end RealTimeStreaming
