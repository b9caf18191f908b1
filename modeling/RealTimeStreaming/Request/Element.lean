import RealTimeStreaming.Request.Basic
import RealTimeStreaming.Request.Limits
import RealTimeStreaming.Request.Scan
import RealTimeStreaming.Text.Number

/-! The elements of a request as they are read one after the other: method, target,
version, header lines, and the announced length of the body. Each reader is a scan
followed by a check of what was cut off. -/

namespace RealTimeStreaming

open Octet

/-- Blank lines and spaces may stand before the method, within its limit. -/
def Method.read (limits : Limits) (input : Bytes) : Reading Method :=
  (scanToken .identifier limits.method isSeparator input).check Method.ofToken

/-- A target is any visible ASCII text. -/
def targetOfToken (token : Bytes) : Except ParseError String :=
  if !token.isEmpty && token.all isGraphic then .ok (Text.ofAscii token)
  else .error (.token .requestUri token)

def readTarget (limits : Limits) (input : Bytes) : Reading String :=
  (scanToken .requestUri limits.uri isSpace input).check targetOfToken

/-- Blanks may follow the version on its line. -/
def Version.ofLine (line : Bytes) : Except ParseError Version :=
  let text := Text.trimEnd isBlank line
  if text = Text.utf8 Version.rtsp10.name then .ok .rtsp10
  else .error (.literal Version.rtsp10.name text)

/-- Reads the rest of the first line, its line break included. -/
def Version.read (input : Bytes) : Reading Version :=
  let lead := (input.takeWhile isSpace).length
  if Limits.versionLine.toNat < lead then .failed (.tooLong .text Limits.versionLine)
  else
    ((scanLine .text Limits.versionLine (input.drop lead)).check Version.ofLine).shift lead

/-- A header line is cut at its first colon. Blanks may stand before and after the colon
and at the end. -/
def Header.ofLine (line : Bytes) : Except ParseError Header :=
  match Text.cutAt colon line with
  | none => .error (.literal ":" line)
  | some (before, after) =>
    let name := Text.trimEnd isBlank before
    let value := Text.trim isBlank after
    if !name.isEmpty && name.all isNameChar then
      match Text.ofUtf8? value with
      | some text => .ok ⟨Text.ofAscii name, text⟩
      | none => .error (.token .text value)
    else .error (.token .headerName name)

/-- What one line does to the headers. -/
inductive HeaderLine where
  /-- A header was stored, in the map given. -/
  | stored (headers : HeaderMap)
  /-- The empty line that ends the headers. -/
  | blank
deriving DecidableEq, Repr

def HeaderMap.storeLine (m : HeaderMap) (line : Bytes) : Except ParseError HeaderLine :=
  if line.isEmpty then .ok .blank
  else do
    let h ← Header.ofLine line
    let (m, _) ← m.insert h.name h.value
    return .stored m

/-- Reads one line of the header block. -/
def HeaderMap.readLine (limits : Limits) (m : HeaderMap) (input : Bytes) : Reading HeaderLine :=
  (scanLine .text limits.headerLine input).check m.storeLine

/-- The body length that a header value announces. -/
def contentLength (limits : Limits) (value : String) : Except ParseError Nat :=
  match Text.readNat (UInt64.size - 1) value.toList with
  | .ok n => if n ≤ limits.body.toNat then .ok n else .error (.contentLength value)
  | .error _ => .error (.contentLength value)

namespace Request

/-- The sequence number in the headers; every request must have one. -/
def sequence (r : Request) : Except ParseError UInt32 :=
  match r.header? "CSeq" with
  | none => .error .missingCSeq
  | some value =>
    match Text.readUInt32 value.toList with
    | .ok n => .ok n
    | .error _ => .error (.kindMismatch .integer value)

/-- The length of the body that follows the headers. -/
def announcedLength (limits : Limits) (r : Request) : Except ParseError Nat :=
  match r.header? "Content-Length" with
  | none => .ok 0
  | some value => contentLength limits value

end Request

theorem Method.read_bounds {limits : Limits} {input : Bytes} {m : Method} {n : Nat}
    (h : Method.read limits input = .complete m n) : 1 ≤ n ∧ n ≤ input.length := by
  obtain ⟨token, hs, hm⟩ := Reading.check_eq_complete.1 h
  have hlt := scanToken_lt hs
  cases token with
  | nil => cases hm
  | cons b rest =>
    simp only [List.length_cons] at hlt
    omega

theorem readTarget_bounds {limits : Limits} {input : Bytes} {t : String} {n : Nat}
    (h : readTarget limits input = .complete t n) : 1 ≤ n ∧ n ≤ input.length := by
  obtain ⟨token, hs, hm⟩ := Reading.check_eq_complete.1 h
  have hlt := scanToken_lt hs
  cases token with
  | nil => cases hm
  | cons b rest =>
    simp only [List.length_cons] at hlt
    omega

theorem Version.read_bounds {input : Bytes} {v : Version} {n : Nat}
    (h : Version.read input = .complete v n) : 1 ≤ n ∧ n ≤ input.length := by
  simp only [Version.read] at h
  split at h
  · cases h
  · obtain ⟨m, hc, rfl⟩ := Reading.shift_eq_complete.1 h
    obtain ⟨line, hs, -⟩ := Reading.check_eq_complete.1 hc
    have hb := scanLine_bounds hs
    have hl := length_takeWhile_le isSpace input
    simp only [List.length_drop] at hb
    omega

theorem HeaderMap.readLine_bounds {limits : Limits} {m : HeaderMap} {input : Bytes}
    {l : HeaderLine} {n : Nat} (h : m.readLine limits input = .complete l n) :
    1 ≤ n ∧ n ≤ input.length := by
  obtain ⟨line, hs, -⟩ := Reading.check_eq_complete.1 h
  exact scanLine_bounds hs

/-- A line takes its place in the room that the map has. -/
theorem HeaderMap.capacity_of_readLine {limits : Limits} {m m' : HeaderMap} {input : Bytes}
    {n : Nat} (h : m.readLine limits input = .complete (.stored m') n) :
    m'.capacity = m.capacity := by
  obtain ⟨line, -, hs⟩ := Reading.check_eq_complete.1 h
  unfold storeLine at hs
  split at hs
  · cases hs
  · cases hh : Header.ofLine line with
    | error e => simp [hh, bind, Except.bind] at hs
    | ok header =>
      simp only [hh, bind, Except.bind, insert] at hs
      split at hs
      · cases hs
      · rename_i hi
        cases hs
        split at hi
        · cases hi
          rfl
        · split at hi
          · cases hi
          · cases hi
            rfl

end RealTimeStreaming
