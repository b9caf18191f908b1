import RealTimeStreaming.Request.Element

/-! The resumable request parser. It is shown the bytes of one request from the first one
on, at every call as many as have arrived, and remembers only how far it has come. Each
step reads one element into the request; a step that has to wait consumes nothing, so a
cut of the input inside an element leaves no trace. A finished or failed parser answers
every later call alike until it is reset. -/

namespace RealTimeStreaming

/-- The element that is read next, or how the parse ended. -/
inductive Stage where
  | method
  | target
  | version
  /-- The next header line or the empty line after them. -/
  | headers
  | body
  | done
  | failed (error : ParseError)
deriving DecidableEq, Repr

namespace Stage

def isTerminal : Stage → Bool
  | .done => true
  | .failed _ => true
  | _ => false

/-- How many elements may still be read, header lines aside. -/
def rank : Stage → Nat
  | .method => 5
  | .target => 4
  | .version => 3
  | .headers => 2
  | .body => 1
  | .done => 0
  | .failed _ => 0

end Stage

/-- How far a parse has come. -/
structure Status where
  offset : Nat
  isComplete : Bool
deriving DecidableEq, Repr

structure Parser where
  limits : Limits := {}
  stage : Stage := .method
  /-- The bytes of the request consumed so far. -/
  offset : Nat := 0
  /-- The length of the body, known once the headers have been read. -/
  bodyLength : Nat := 0
deriving DecidableEq, Repr

namespace Parser

/-- Forgets the request under way. -/
def reset (p : Parser) : Parser :=
  { limits := p.limits }

/-- What the parser answers in its present state. -/
def result (p : Parser) : Except ParseError Status :=
  match p.stage with
  | .failed e => .error e
  | .done => .ok ⟨p.offset, true⟩
  | _ => .ok ⟨p.offset, false⟩

/-- Puts an element that was read into the request and goes on with `next`. -/
def store {α : Type} (reading : Reading α) (r : Request) (put : α → Request) (next : Parser) :
    Request × Reading Parser :=
  match reading with
  | .needMore => (r, .needMore)
  | .failed e => (r, .failed e)
  | .complete a n => (put a, .complete next n)

/-- At the end of the headers the sequence number and the body length are taken from
them, in this order. -/
def endHeaders (p : Parser) (r : Request) (consumed : Nat) : Request × Reading Parser :=
  match r.sequence with
  | .error e => (r, .failed e)
  | .ok cseq =>
    let r := { r with cseq }
    match r.announcedLength p.limits with
    | .error e => (r, .failed e)
    | .ok bodyLength => (r, .complete { p with stage := .body, bodyLength } consumed)

/-- Reads the next element from the bytes not yet consumed. A new request blanks what
the old one left behind. -/
def step (p : Parser) (r : Request) (window : Bytes) : Request × Reading Parser :=
  match p.stage with
  | .method =>
    let r := r.clear
    store (Method.read p.limits window) r ({ r with method := · }) { p with stage := .target }
  | .target =>
    store (readTarget p.limits window) r ({ r with uri := · }) { p with stage := .version }
  | .version =>
    store (Version.read window) r ({ r with version := · }) { p with stage := .headers }
  | .headers =>
    match r.headers.readLine p.limits window with
    | .needMore => (r, .needMore)
    | .failed e => (r, .failed e)
    | .complete (.stored headers) n => ({ r with headers }, .complete p n)
    | .complete .blank n => p.endHeaders r n
  | .body =>
    if window.length < p.bodyLength then (r, .needMore)
    else
      ({ r with body := window.take p.bodyLength },
        .complete { p with stage := .done } p.bodyLength)
  | .done => (r, .needMore)
  | .failed _ => (r, .needMore)

theorem store_eq_complete_iff {α : Type} {reading : Reading α} {r s : Request}
    {put : α → Request} {next q : Parser} {n : Nat} :
    store reading r put next = (s, .complete q n) ↔
      ∃ a, reading = .complete a n ∧ s = put a ∧ q = next := by
  cases reading with
  | needMore => simp [store]
  | failed e => simp [store]
  | complete a m => simp [store, eq_comm, and_comm, and_assoc]

theorem endHeaders_eq_complete_iff {p q : Parser} {r s : Request} {m n : Nat} :
    p.endHeaders r m = (s, .complete q n) ↔
      ∃ cseq length, r.sequence = .ok cseq ∧ r.announcedLength p.limits = .ok length ∧
        s = { r with cseq } ∧ q = { p with stage := .body, bodyLength := length } ∧ n = m := by
  have ha (cseq : UInt32) :
      Request.announcedLength p.limits { r with cseq } = r.announcedLength p.limits := rfl
  simp only [endHeaders, ha]
  cases hs : r.sequence with
  | error e => simp
  | ok cseq =>
    cases hn : r.announcedLength p.limits with
    | error e => simp
    | ok length => simp [eq_comm]

/-- What becomes of the parser and the request when a step reads an element, and how many bytes
this takes. -/
inductive Advances (p : Parser) (r : Request) (window : Bytes) : Parser → Request → Nat → Prop
  | method {m : Method} {n : Nat} (hp : p.stage = .method)
      (h : Method.read p.limits window = .complete m n) :
      Advances p r window { p with stage := .target } { r.clear with method := m } n
  | target {uri : String} {n : Nat} (hp : p.stage = .target)
      (h : readTarget p.limits window = .complete uri n) :
      Advances p r window { p with stage := .version } { r with uri } n
  | version {v : Version} {n : Nat} (hp : p.stage = .version)
      (h : Version.read window = .complete v n) :
      Advances p r window { p with stage := .headers } { r with version := v } n
  | line {headers : HeaderMap} {n : Nat} (hp : p.stage = .headers)
      (h : r.headers.readLine p.limits window = .complete (.stored headers) n) :
      Advances p r window p { r with headers } n
  | blank {cseq : UInt32} {length n : Nat} (hp : p.stage = .headers)
      (h : r.headers.readLine p.limits window = .complete .blank n)
      (hsequence : r.sequence = .ok cseq) (hlength : r.announcedLength p.limits = .ok length) :
      Advances p r window { p with stage := .body, bodyLength := length } { r with cseq } n
  | body (hp : p.stage = .body) (h : p.bodyLength ≤ window.length) :
      Advances p r window { p with stage := .done } { r with body := window.take p.bodyLength }
        p.bodyLength

section Step

variable {p q : Parser} {r s : Request} {window : Bytes} {n : Nat}

theorem advances_of_step (h : p.step r window = (s, .complete q n)) :
    p.Advances r window q s n := by
  unfold step at h
  split at h <;> rename_i hp
  · obtain ⟨m, hread, rfl, rfl⟩ := store_eq_complete_iff.1 h
    exact .method hp hread
  · obtain ⟨uri, hread, rfl, rfl⟩ := store_eq_complete_iff.1 h
    exact .target hp hread
  · obtain ⟨v, hread, rfl, rfl⟩ := store_eq_complete_iff.1 h
    exact .version hp hread
  · split at h
    · cases h
    · cases h
    · rename_i hread
      cases h
      exact .line hp hread
    · rename_i hread
      obtain ⟨cseq, length, hsequence, hlength, rfl, rfl, rfl⟩ := endHeaders_eq_complete_iff.1 h
      exact .blank hp hread hsequence hlength
  · split at h
    · cases h
    · cases h
      exact .body hp (by omega)
  · cases h
  · cases h

/-- Every element before the body takes at least one byte. -/
theorem step_consumes (hp : 1 < p.stage.rank) (h : p.step r window = (s, .complete q n)) :
    1 ≤ n ∧ n ≤ window.length := by
  cases advances_of_step h with
  | method _ hread => exact Method.read_bounds hread
  | target _ hread => exact readTarget_bounds hread
  | version _ hread => exact Version.read_bounds hread
  | line _ hread => exact HeaderMap.readLine_bounds hread
  | blank _ hread => exact HeaderMap.readLine_bounds hread
  | body hbody =>
    rw [hbody] at hp
    simp [Stage.rank] at hp

theorem le_length_of_step (h : p.step r window = (s, .complete q n)) : n ≤ window.length := by
  by_cases hp : 1 < p.stage.rank
  · exact (step_consumes hp h).2
  · cases advances_of_step h with
    | body _ hle => exact hle
    | _ hstage => simp [hstage, Stage.rank] at hp

/-- A step that reads an element gets nearer to the end: the rank falls, or a line of the
headers is consumed. -/
theorem step_progress (h : p.step r window = (s, .complete q n)) :
    (window.drop n).length + q.stage.rank < window.length + p.stage.rank := by
  have hn := le_length_of_step h
  simp only [List.length_drop]
  cases advances_of_step h with
  | line hp hread =>
    have hb := HeaderMap.readLine_bounds hread
    omega
  | _ hp =>
    simp only [hp, Stage.rank]
    omega

theorem limits_of_step (h : p.step r window = (s, .complete q n)) : q.limits = p.limits := by
  cases advances_of_step h <;> rfl

end Step

/-- Reads elements from the bytes not yet consumed until one has to wait or fails, or the
request is complete. -/
def run (p : Parser) (r : Request) (window : Bytes) : Parser × Request :=
  match _h : p.step r window with
  | (r, .needMore) => (p, r)
  | (r, .failed e) => ({ p with stage := .failed e }, r)
  | (r, .complete q n) => run { q with offset := p.offset + n } r (window.drop n)
termination_by window.length + p.stage.rank
decreasing_by exact step_progress _h

theorem capacity_step (p : Parser) (r : Request) (w : Bytes) :
    (p.step r w).1.headers.capacity = r.headers.capacity := by
  unfold step
  split
  · cases Method.read p.limits w <;> rfl
  · cases readTarget p.limits w <;> rfl
  · cases Version.read w <;> rfl
  · split
    · rfl
    · rfl
    · rename_i hr
      exact HeaderMap.capacity_of_readLine hr
    · simp only [endHeaders]
      split
      · rfl
      · split <;> rfl
  · split <;> rfl
  · rfl
  · rfl

theorem capacity_run (p : Parser) (r : Request) (w : Bytes) :
    (p.run r w).2.headers.capacity = r.headers.capacity := by
  fun_induction run p r w with
  | case1 p r w s hs => rw [← capacity_step p r w, hs]
  | case2 p r w s e hs => rw [← capacity_step p r w, hs]
  | case3 p r w s q n hs ih => rw [ih, ← capacity_step p r w, hs]

theorem offset_le_run (p : Parser) (r : Request) (window : Bytes) :
    p.offset ≤ (p.run r window).1.offset := by
  fun_induction run p r window with
  | case1 => exact Nat.le_refl _
  | case2 => exact Nat.le_refl _
  | case3 p r window r' q n h ih => exact Nat.le_trans (Nat.le_add_right _ _) ih

/-- A parser that had not come to the body and completes the request consumes bytes. -/
theorem run_consumes {p : Parser} {r : Request} {window : Bytes} (hp : 1 < p.stage.rank)
    (h : (p.run r window).1.stage = .done) :
    p.offset < (p.run r window).1.offset ∧ window ≠ [] := by
  unfold run at h ⊢
  split at h
  · rw [h] at hp
    simp [Stage.rank] at hp
  · cases h
  · rename_i r' q n hs
    have hn := step_consumes hp hs
    have ho := offset_le_run { q with offset := p.offset + n } r' (window.drop n)
    simp only at ho
    constructor
    · omega
    · rintro rfl
      simp only [List.length_nil] at hn
      omega

/-- Goes on with the request of which `input` holds the bytes so far. -/
def parse (p : Parser) (r : Request) (input : Bytes) : Parser × Request :=
  p.run r (input.drop p.offset)

/-- Whether so many bytes, whatever they are, leave the parser as it is: the body is not
whole, or the parse has ended. -/
def waits (p : Parser) (available : Nat) : Bool :=
  match p.stage with
  | .body => available < p.bodyLength
  | .done => true
  | .failed _ => true
  | _ => false

theorem run_of_waits {p : Parser} {window : Bytes} (r : Request)
    (h : p.waits window.length) : p.run r window = (p, r) := by
  have hs : p.step r window = (r, .needMore) := by
    unfold waits at h
    split at h <;> simp_all [step]
  unfold run
  split <;> simp_all

end Parser

end RealTimeStreaming
