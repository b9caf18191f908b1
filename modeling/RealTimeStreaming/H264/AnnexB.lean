import RealTimeStreaming.H264.Nal
import RealTimeStreaming.Text.Trim

/-! Byte streams of NAL units set apart by start codes. A start code has three or four
bytes; the first one in the stream fixes the width for all of it. What stands before the
first code is no unit, and neither is nothing between two codes. -/

namespace RealTimeStreaming.H264

inductive StartCode where
  | three
  | four
deriving DecidableEq, Repr

namespace StartCode

def bytes : StartCode → Bytes
  | .three => [0, 0, 1]
  | .four => [0, 0, 0, 1]

def length (code : StartCode) : Nat :=
  code.bytes.length

/-- The width of the first start code, told whether a zero byte stands before. -/
def detectAfter (zeroBefore : Bool) : Bytes → Option StartCode
  | 0 :: 0 :: 1 :: _ => some (if zeroBefore then .four else .three)
  | b :: rest => detectAfter (b == 0) rest
  | [] => none

/-- The width of the first start code. -/
def detect (data : Bytes) : Option StartCode :=
  detectAfter false data

/-- What stands before and behind the first start code. The part already passed comes last
byte first. -/
def cutAfter (code : StartCode) (passed : Bytes) : Bytes → Option (Bytes × Bytes)
  | [] => none
  | b :: rest =>
    match Text.afterStart? code.bytes (b :: rest) with
    | some after => some (passed.reverse, after)
    | none => cutAfter code (b :: passed) rest

def cut? (code : StartCode) (data : Bytes) : Option (Bytes × Bytes) :=
  code.cutAfter [] data

theorem length_cutAfter {code : StartCode} {passed data before after : Bytes}
    (h : code.cutAfter passed data = some (before, after)) : after.length < data.length := by
  fun_induction cutAfter code passed data with
  | case1 => cases h
  | case2 passed b rest found hstart =>
    cases h
    have hlength := congrArg List.length (Text.afterStart?_eq_some.1 hstart)
    rw [List.length_append] at hlength
    have hcode : 0 < code.bytes.length := by cases code <;> decide
    omega
  | case3 passed b rest hstart ih => exact Nat.lt_succ_of_lt (ih h)

end StartCode

/-- Takes the units off a stream one by one. -/
structure UnitReader where
  code : StartCode
  /-- The stream from the next unit on. -/
  rest : Bytes
deriving DecidableEq, Repr

namespace UnitReader

/-- Starts behind the first start code; without one there are no units. -/
def ofData (data : Bytes) : UnitReader :=
  match StartCode.detect data with
  | none => { code := .three, rest := [] }
  | some code => { code, rest := ((code.cut? data).map (·.2)).getD [] }

/-- The bytes up to the next start code or the end, and those behind. -/
def stretch (r : UnitReader) : Bytes × Bytes :=
  (r.code.cut? r.rest).getD (r.rest, [])

theorem length_stretch_lt {r : UnitReader} (h : r.rest ≠ []) :
    r.stretch.2.length < r.rest.length := by
  unfold stretch
  cases hcut : r.code.cut? r.rest with
  | none => exact List.length_pos_iff.2 h
  | some found => exact StartCode.length_cutAfter hcut

/-- The next unit, if there is one. Nothing between two start codes is no unit. -/
def next (r : UnitReader) : Option NalUnit × UnitReader :=
  if _h : r.rest = [] then (none, r)
  else
    match NalUnit.ofBytes? r.stretch.1 with
    | some unit => (some unit, { r with rest := r.stretch.2 })
    | none => next { r with rest := r.stretch.2 }
termination_by r.rest.length
decreasing_by exact length_stretch_lt _h

theorem length_next_lt {r after : UnitReader} {unit : NalUnit} (h : r.next = (some unit, after)) :
    after.rest.length < r.rest.length := by
  fun_induction next r with
  | case1 => cases h
  | case2 r hne found hunit =>
    cases h
    exact length_stretch_lt hne
  | case3 r hne hunit ih => exact Nat.lt_trans (ih h) (length_stretch_lt hne)

/-- The units still to come, after those already taken, which come last one first. -/
def unitsAfter (taken : List NalUnit) (r : UnitReader) : List NalUnit :=
  match _h : r.next with
  | (some unit, after) => unitsAfter (unit :: taken) after
  | (none, _) => taken.reverse
termination_by r.rest.length
decreasing_by exact length_next_lt _h

/-- The units still to come. -/
def units (r : UnitReader) : List NalUnit :=
  r.unitsAfter []

end UnitReader

/-- The units of a stream. -/
def splitUnits (data : Bytes) : List NalUnit :=
  (UnitReader.ofData data).units

end RealTimeStreaming.H264
