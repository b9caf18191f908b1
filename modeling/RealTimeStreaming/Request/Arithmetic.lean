import RealTimeStreaming.Arithmetic
import RealTimeStreaming.Request.Inbox

/-! Reading requests on a machine that may check its sums. Only the scan of a line has any that a
limit can drive out of the words, and only the limit of header lines is open to choice, so such a
machine stops in front of a header line or reads it as one that wraps its sums does. -/

namespace RealTimeStreaming

open Octet

/-- `scanLine` by positions, with its sums left to the machine. -/
def scanLineBy (arithmetic : Arithmetic) (kind : TokenKind) (limit : UInt64) (input : Bytes) :
    Option (Reading Bytes) :=
  match input.findIdx? (· == lineFeed) with
  | none =>
    (arithmetic.word? (limit.toNat + 1)).map fun bound =>
      if bound.toNat < input.length then .failed (.tooLong kind limit) else .needMore
  | some n =>
    let line := withoutReturn (input.take n)
    if limit.toNat < line.length then some (.failed (.tooLong kind limit))
    else (arithmetic.word? (n + 1)).map fun consumed => .complete line consumed.toNat

/-- `readLine` with the sums of its scan left to the machine. -/
def HeaderMap.readLineBy (arithmetic : Arithmetic) (limits : Limits) (m : HeaderMap)
    (input : Bytes) : Option (Reading HeaderLine) :=
  (scanLineBy arithmetic .text limits.headerLine input).map (·.check m.storeLine)

namespace Parser

variable {arithmetic : Arithmetic} {p : Parser} {r : Request} {window : Bytes}

/-- One step, if the machine does not stop in it. -/
def stepBy (arithmetic : Arithmetic) (p : Parser) (r : Request) (window : Bytes) :
    Option (Request × Reading Parser) :=
  match p.stage with
  | .headers => (r.headers.readLineBy arithmetic p.limits window).map fun _ => p.step r window
  | _ => some (p.step r window)

theorem step_of_stepBy {next : Request × Reading Parser}
    (h : p.stepBy arithmetic r window = some next) : p.step r window = next := by
  unfold stepBy at h
  split at h
  · obtain ⟨reading, -, hstep⟩ := Option.map_eq_some_iff.1 h
    exact hstep
  · exact Option.some.inj h

/-- `run`, as long as the machine does not stop. -/
def runBy (arithmetic : Arithmetic) (p : Parser) (r : Request) (window : Bytes) :
    Option (Parser × Request) :=
  match _h : p.stepBy arithmetic r window with
  | none => none
  | some (r, .needMore) => some (p, r)
  | some (r, .failed e) => some ({ p with stage := .failed e }, r)
  | some (r, .complete q n) =>
    runBy arithmetic { q with offset := p.offset + n } r (window.drop n)
termination_by window.length + p.stage.rank
decreasing_by exact step_progress (step_of_stepBy _h)

/-- A machine that does not stop comes to what one comes to that wraps its sums. -/
theorem run_of_runBy {next : Parser × Request} (h : p.runBy arithmetic r window = some next) :
    p.run r window = next := by
  fun_induction runBy arithmetic p r window with
  | case1 => cases h
  | case2 p r window s hs =>
    rw [run, step_of_stepBy hs]
    exact Option.some.inj h
  | case3 p r window s e hs =>
    rw [run, step_of_stepBy hs]
    exact Option.some.inj h
  | case4 p r window s q n hs ih =>
    rw [run, step_of_stepBy hs]
    exact ih h

/-- If no step stops the machine, neither does the run. -/
theorem runBy_of_stepBy (h : ∀ (q : Parser) (s : Request) (rest : Bytes), q.limits = p.limits →
      rest <:+ window → q.stepBy arithmetic s rest = some (q.step s rest)) :
    p.runBy arithmetic r window = some (p.run r window) := by
  fun_induction runBy arithmetic p r window with
  | case1 p r window hs => cases hs.symm.trans (h p r window rfl (List.suffix_refl _))
  | case2 p r window s hs => rw [run, step_of_stepBy hs]
  | case3 p r window s e hs => rw [run, step_of_stepBy hs]
  | case4 p r window s q n hs ih =>
    rw [run, step_of_stepBy hs]
    have hkept : q.limits = p.limits := limits_of_step (step_of_stepBy hs)
    apply ih
    intro q' s' rest hlimits hrest
    exact h q' s' rest (hlimits.trans hkept) (hrest.trans (List.drop_suffix n window))

theorem runBy_wrapping (p : Parser) (r : Request) (window : Bytes) :
    p.runBy .wrapping r window = some (p.run r window) := by
  apply runBy_of_stepBy
  intro q s rest _ _
  unfold stepBy
  split
  · unfold HeaderMap.readLineBy scanLineBy
    split
    · rw [Arithmetic.word?_wrapping]
      rfl
    · dsimp only
      split
      · rfl
      · rw [Arithmetic.word?_wrapping]
        rfl
  · rfl

/-- `parse`, as long as the machine does not stop. -/
def parseBy (arithmetic : Arithmetic) (p : Parser) (r : Request) (input : Bytes) :
    Option (Parser × Request) :=
  p.runBy arithmetic r (input.drop p.offset)

end Parser

namespace Inbox

/-- `read`, as long as the machine does not stop. -/
def readBy (arithmetic : Arithmetic) (i : Inbox) : Option Inbox :=
  if i.parser.waits i.available then some i
  else
    (i.parser.runBy arithmetic i.request i.pending).map fun (parser, request) =>
      { i with parser, request }

/-- `push`, as long as the machine does not stop. -/
def pushBy (arithmetic : Arithmetic) (i : Inbox) (piece : Bytes) : Option Inbox :=
  (i.put piece).readBy arithmetic

/-- A machine that does not stop takes a piece in as one does that wraps its sums. -/
theorem push_of_pushBy {arithmetic : Arithmetic} {i j : Inbox} {piece : Bytes}
    (h : i.pushBy arithmetic piece = some j) : i.push piece = j := by
  unfold pushBy readBy at h
  unfold push read
  split at h
  · rename_i hwaits
    rw [if_pos hwaits]
    exact Option.some.inj h
  · rename_i hreads
    obtain ⟨⟨parser, request⟩, hrun, rfl⟩ := Option.map_eq_some_iff.1 h
    rw [if_neg hreads, Parser.run_of_runBy hrun]

end Inbox

end RealTimeStreaming
