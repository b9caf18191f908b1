import RealTimeStreaming.Proofs.Wire.Torn

/-! Sinks that differ only in how they take the bytes. Short writes and interruptions are hidden by
the writing of whole messages: what comes of a message, and how much of it stands on the wire, is
set by the budget of the sink and by its flushes. -/

namespace RealTimeStreaming

/-! ### What comes of a message -/

namespace SinkScript

/-- The script with the same budget and flushes, without short writes and interruptions. -/
def smooth (s : SinkScript) : SinkScript :=
  { s with interruptEvery := 0, maxWrite := none }

/-- The part of a message that the budget leaves room for. -/
def accepted (s : SinkScript) (taken : Nat) (message : Bytes) : Bytes :=
  match s.budget with
  | none => message
  | some budget => message.take (budget - taken)

/-- How a message fails that the budget leaves no room for. -/
def refusal (s : SinkScript) : IoError :=
  match s.failure with
  | some kind => .plain kind
  | none => .nothingAccepted

/-- What comes of a message before it is flushed. -/
def verdict (s : SinkScript) (taken : Nat) (message : Bytes) : Except IoError Unit :=
  if s.accepted taken message = message then .ok () else .error s.refusal

/-- What comes of a message with the flush behind it. -/
def outcome (s : SinkScript) (taken : Nat) (message : Bytes) : Except IoError Unit :=
  match s.verdict taken message, s.flush with
  | .ok (), none => .ok ()
  | .ok (), some error => .error error
  | .error error, _ => .error error

variable {s : SinkScript} {taken : Nat} {offered : Bytes}

theorem exists_accepted_eq_take (s : SinkScript) (taken : Nat) (message : Bytes) :
    ∃ n, s.accepted taken message = message.take n := by
  unfold accepted
  split
  · exact ⟨message.length, List.take_length.symm⟩
  · exact ⟨_, rfl⟩

theorem room_le (s : SinkScript) (offered : Bytes) : s.room offered ≤ offered.length := by
  unfold room
  split
  · exact Nat.le_refl _
  · exact List.length_take_le' _ _

/-- A part that the budget has room for leaves the rest of the budget to the rest. -/
theorem accepted_eq_append {count : Nat}
    (hbudget : ∀ budget ∈ s.budget, taken + count ≤ budget) (offered : Bytes) :
    s.accepted taken offered =
      offered.take count ++ s.accepted (taken + count) (offered.drop count) := by
  cases hb : s.budget with
  | none => simp only [accepted, hb, List.take_append_drop]
  | some budget =>
    have hle := hbudget budget hb
    simp only [accepted, hb]
    rw [← List.take_add]
    congr 1
    omega

/-- A call takes at least one byte and no more than the budget leaves, as long as it leaves any. -/
theorem respond_of_accepted (hmost : s.maxWrite ≠ some 0) (h : s.accepted taken offered ≠ []) :
    ∃ count, 0 < count ∧ count ≤ offered.length ∧
      (∀ budget ∈ s.budget, taken + count ≤ budget) ∧ s.respond taken offered = .takes count := by
  have hle := s.room_le offered
  cases hb : s.budget with
  | none =>
    have hne : offered ≠ [] := by simpa [accepted, hb] using h
    have hroom : s.room offered ≠ 0 := fun h0 => hmost ((s.room_eq_zero hne).1 h0)
    exact ⟨s.room offered, by omega, hle, by simp, by simp only [respond, hb]⟩
  | some budget =>
    simp only [accepted, hb, ne_eq, List.take_eq_nil_iff, not_or] at h
    obtain ⟨hleft, hne⟩ := h
    have hroom : s.room offered ≠ 0 := fun h0 => hmost ((s.room_eq_zero hne).1 h0)
    have hmin : (s.room offered).min (budget - taken) = min (s.room offered) (budget - taken) := rfl
    refine ⟨min (s.room offered) (budget - taken), by omega, by omega, ?_, ?_⟩
    · rintro _ ⟨⟩
      omega
    · simp only [respond, hb]
      split
      · omega
      · rw [hmin]

/-- A call fails, or takes nothing, once the budget leaves nothing. -/
theorem respond_of_not_accepted (hne : offered ≠ []) (h : s.accepted taken offered = []) :
    s.respond taken offered = .takes 0 ∧ s.refusal = .nothingAccepted ∨
      s.respond taken offered = .fails s.refusal := by
  cases hb : s.budget with
  | none => simp [accepted, hb, hne] at h
  | some budget =>
    simp only [accepted, hb, List.take_eq_nil_iff, hne, or_false] at h
    cases hf : s.failure with
    | none => simp [respond, hb, refusal, hf, h]
    | some kind => simp [respond, hb, refusal, hf, h]

theorem verdict_of_not_accepted (hne : offered ≠ []) (h : s.accepted taken offered = []) :
    s.verdict taken offered = .error s.refusal := by
  rw [verdict, h, if_neg hne.symm]

/-- A part that there is room for does not change what comes of a message. -/
theorem verdict_eq_drop {count : Nat} (hbudget : ∀ budget ∈ s.budget, taken + count ≤ budget)
    (offered : Bytes) :
    s.verdict taken offered = s.verdict (taken + count) (offered.drop count) := by
  have hwhole : s.accepted taken offered = offered ↔
      s.accepted (taken + count) (offered.drop count) = offered.drop count := by
    conv_lhs => rhs; rw [← List.take_append_drop count offered]
    rw [accepted_eq_append hbudget, List.append_cancel_left_eq]
  simp only [verdict, hwhole]

/-- What a call can do: take bytes that there is room for, or refuse when there is none. -/
theorem respond_cases (hmost : s.maxWrite ≠ some 0) (hne : offered ≠ []) (taken : Nat) :
    (∃ count, 0 < count ∧ count ≤ offered.length ∧
      (∀ budget ∈ s.budget, taken + count ≤ budget) ∧ s.respond taken offered = .takes count) ∨
    s.accepted taken offered = [] ∧
      (s.respond taken offered = .takes 0 ∧ s.refusal = .nothingAccepted ∨
        s.respond taken offered = .fails s.refusal) := by
  by_cases h : s.accepted taken offered = []
  · exact .inr ⟨h, respond_of_not_accepted hne h⟩
  · exact .inl (respond_of_accepted hmost h)

theorem settle_toBehaviour (s : SinkScript) (taken : Nat) (offered : Bytes) (call : Nat) :
    (s.toBehaviour.settle taken offered s.toBehaviour.patience call).2 =
      s.respond taken offered := by
  have hne := s.toBehaviour.settle_ne_interrupted taken offered call
  have heq := (s.toBehaviour.settle_eq taken offered s.toBehaviour.patience call).1
  rw [heq] at hne ⊢
  simp only [toBehaviour, write] at hne ⊢
  split
  · rename_i h
    rw [if_pos h] at hne
    exact absurd rfl hne
  · rfl

end SinkScript

namespace Sink

variable {script : SinkScript} {s t : Sink}

theorem size_wire (s : Sink) : s.wire.size = s.taken.length :=
  Array.length_toList.symm

/-- One call of a script, and one more after each interruption: bytes are taken that there is room
for, or the message ends where it is. -/
theorem pour_cases (hmost : script.maxWrite ≠ some 0) (hs : s.behaviour = script.toBehaviour)
    {rest : Bytes} (hne : rest ≠ []) :
    (∃ (count : Nat) (t : Sink), 0 < count ∧ count ≤ rest.length ∧
      (∀ budget ∈ script.budget, s.taken.length + count ≤ budget) ∧
      t.behaviour = s.behaviour ∧ t.taken = s.taken ++ rest.take count ∧
      s.pour rest = t.pour (rest.drop count)) ∨
    script.accepted s.taken.length rest = [] ∧
      ∃ t, t.taken = s.taken ∧ s.pour rest = (.error script.refusal, t) := by
  rcases hsettle : s.behaviour.settle s.wire.size rest s.behaviour.patience s.writeCalls with
    ⟨call, answer⟩
  have hanswer : answer = script.respond s.taken.length rest := by
    rw [← script.settle_toBehaviour s.taken.length rest s.writeCalls, ← hs, ← size_wire, hsettle]
  rw [pour, if_neg hne, hsettle, hanswer]
  rcases SinkScript.respond_cases hmost hne s.taken.length with
    ⟨count, hpos, hle, hbudget, hr⟩ | ⟨hnone, ⟨hr, hrefusal⟩ | hr⟩ <;> rw [hr]
  · left
    refine ⟨count, { s with writeCalls := call + 1, wire := s.wire ++ rest.take count }, hpos, hle,
      hbudget, rfl, Array.toList_appendList, ?_⟩
    exact if_neg (Nat.ne_of_gt hpos)
  · rw [hrefusal]
    exact .inr ⟨hnone, { s with writeCalls := call + 1 }, rfl, if_pos rfl⟩
  · exact .inr ⟨hnone, { s with writeCalls := call + 1 }, rfl, rfl⟩

/-- Bytes that are offered until they are taken come to what the budget says, however few a call
takes and whichever calls are interrupted. -/
theorem pour_of_script (hmost : script.maxWrite ≠ some 0) (hs : s.behaviour = script.toBehaviour)
    (rest : Bytes) :
    (s.pour rest).1 = script.verdict s.taken.length rest ∧
      (s.pour rest).2.taken = s.taken ++ script.accepted s.taken.length rest := by
  -- What was taken is room gone from the budget, so the rest is judged as the whole was.
  induction hn : rest.length using Nat.strongRecOn generalizing s rest with
  | ind n ih =>
    by_cases hne : rest = []
    · subst hne
      obtain ⟨m, hm⟩ := script.exists_accepted_eq_take s.taken.length []
      rw [List.take_nil] at hm
      simp only [pour_nil, SinkScript.verdict, hm, if_true, List.append_nil, and_self]
    · rcases pour_cases hmost hs hne with
        ⟨count, t, hpos, hle, hbudget, hkeeps, htaken, hpour⟩ | ⟨hnone, t, htaken, hpour⟩
      · have hlength : t.taken.length = s.taken.length + count := by
          rw [htaken, List.length_append, List.length_take_of_le hle]
        have hrest := ih (rest.drop count).length (by rw [List.length_drop]; omega)
          (hkeeps.trans hs) (rest.drop count) rfl
        rw [hlength, ← SinkScript.verdict_eq_drop hbudget, htaken, List.append_assoc,
          ← SinkScript.accepted_eq_append hbudget] at hrest
        rw [hpour]
        exact hrest
      · rw [hpour, SinkScript.verdict_of_not_accepted hne hnone, hnone, List.append_nil]
        exact ⟨rfl, htaken⟩

theorem write_of_script (hmost : script.maxWrite ≠ some 0) (hs : s.behaviour = script.toBehaviour)
    (message : Bytes) :
    (s.write message).1 = script.outcome s.taken.length message ∧
      (s.write message).2.taken = s.taken ++ script.accepted s.taken.length message := by
  obtain ⟨hresult, htaken⟩ := pour_of_script hmost hs message
  have hkeeps := s.behaviour_pour message
  rcases hpour : s.pour message with ⟨⟨error⟩ | ⟨⟩, t⟩ <;> rw [hpour] at hresult htaken hkeeps
  · simp only [write, hpour, SinkScript.outcome, ← hresult]
    exact ⟨trivial, htaken⟩
  · have hflush : t.behaviour.flush t.flushCalls t.wire.size = script.flush := by
      rw [hkeeps, hs]
      rfl
    simp only [write, hpour, SinkScript.outcome, ← hresult, flush, hflush]
    refine ⟨?_, htaken⟩
    cases script.flush <;> rfl

/-- Of a message that is reported as written all was taken, of one that failed a first part. -/
def Took {ε α : Type} (s t : Sink) (message : Bytes) : Except ε α → Prop
  | .ok _ => t.taken = s.taken ++ message
  | .error _ => ∃ n, t.taken = s.taken ++ message.take n

theorem took_write (hmost : script.maxWrite ≠ some 0) (hs : s.behaviour = script.toBehaviour)
    (message : Bytes) : s.Took (s.write message).2 message (s.write message).1 := by
  rcases hw : s.write message with ⟨⟨error⟩ | ⟨⟩, t⟩
  · obtain ⟨n, hn⟩ := script.exists_accepted_eq_take s.taken.length message
    have htaken := (write_of_script hmost hs message).2
    rw [hw, hn] at htaken
    exact ⟨n, htaken⟩
  · exact taken_write hw

theorem took_sendFrame (hmost : script.maxWrite ≠ some 0) (hs : s.behaviour = script.toBehaviour)
    {channel : UInt8} {payload frame : Bytes} (hencode : Frame.encode channel payload = .ok frame) :
    let sent := s.sendFrame channel payload
    s.Took sent.2 frame sent.1 ∧ (∀ n, sent.1 = .ok n → n = frame.length) ∧
      ∀ e, sent.1 = .error e → ∃ failure, e = .io failure := by
  have htook := took_write hmost hs frame
  rw [sendFrame_of_encode hencode]
  rcases hw : s.write frame with ⟨⟨error⟩ | ⟨⟩, t⟩ <;> rw [hw] at htook
  · refine ⟨htook, fun n hn => ?_, fun e he => ⟨error, (Except.error.inj he).symm⟩⟩
    cases hn
  · refine ⟨htook, fun n hn => (Except.ok.inj hn).symm, fun e he => ?_⟩
    cases he

/-- Sinks at the same point of a script and of its smooth form. -/
structure Alike (script : SinkScript) (s t : Sink) : Prop where
  rough : s.behaviour = script.toBehaviour
  smooth : t.behaviour = script.smooth.toBehaviour
  taken_eq : s.taken = t.taken

theorem Alike.write (hmost : script.maxWrite ≠ some 0) (h : Alike script s t) (message : Bytes) :
    (s.write message).1 = (t.write message).1 ∧
      Alike script (s.write message).2 (t.write message).2 := by
  obtain ⟨hresult, htaken⟩ := write_of_script hmost h.rough message
  obtain ⟨hresult', htaken'⟩ := write_of_script (Option.some_ne_none 0).symm h.smooth message
  -- What comes of a message is set by the fields that the two scripts share.
  have houtcome : script.smooth.outcome = script.outcome := rfl
  have haccepted : script.smooth.accepted = script.accepted := rfl
  refine ⟨by rw [hresult, hresult', houtcome, h.taken_eq],
    (s.behaviour_write message).trans h.rough, (t.behaviour_write message).trans h.smooth, ?_⟩
  rw [htaken, htaken', haccepted, h.taken_eq]

end Sink

/-! ### Calls of a writer -/

/-- A call of a connection's writer. -/
inductive WriterCall where
  | message (bytes : Bytes)
  | frame (channel : UInt8) (payload : Bytes)
deriving DecidableEq, Repr

namespace WriterCall

/-- Makes a call. Only the sending of a frame gives a count. -/
def perform : WriterCall → Sink → Except RtspError (Option Nat) × Sink
  | .message bytes, s =>
    let (result, s) := s.write bytes
    ((result.map fun _ => none).mapError .io, s)
  | .frame channel payload, s =>
    let (result, s) := s.sendFrame channel payload
    (result.map some, s)

/-- Makes one call after the other, whatever becomes of each. -/
def performAll : List WriterCall → Sink → List (Except RtspError (Option Nat)) × Sink
  | [], s => ([], s)
  | call :: calls, s =>
    let (result, s) := call.perform s
    let (results, s) := performAll calls s
    (result :: results, s)

variable {script : SinkScript} {s t : Sink}

theorem perform_alike (hmost : script.maxWrite ≠ some 0) (h : Sink.Alike script s t)
    (call : WriterCall) :
    (call.perform s).1 = (call.perform t).1 ∧
      Sink.Alike script (call.perform s).2 (call.perform t).2 := by
  cases call with
  | message bytes =>
    obtain ⟨hresult, hnext⟩ := h.write hmost bytes
    exact ⟨by simp only [perform, hresult], hnext⟩
  | frame channel payload =>
    rcases hencode : Frame.encode channel payload with e | frame
    · simp only [perform, Sink.sendFrame, hencode]
      exact ⟨trivial, h⟩
    · obtain ⟨hresult, hnext⟩ := h.write hmost frame
      simp only [perform, Sink.sendFrame_of_encode hencode, hresult]
      exact ⟨trivial, hnext⟩

theorem performAll_alike (hmost : script.maxWrite ≠ some 0) (h : Sink.Alike script s t)
    (calls : List WriterCall) :
    (performAll calls s).1 = (performAll calls t).1 ∧
      Sink.Alike script (performAll calls s).2 (performAll calls t).2 := by
  induction calls generalizing s t with
  | nil => exact ⟨rfl, h⟩
  | cons call calls ih =>
    obtain ⟨hresult, hnext⟩ := perform_alike hmost h call
    obtain ⟨hresults, hlast⟩ := ih hnext
    exact ⟨congrArg₂ List.cons hresult hresults, hlast⟩

/-- A writer hides how its sink takes the bytes. Short writes and interruptions change neither the
results of the calls nor the wire. After any calls, a message that is reported as written stands on
the wire whole, one that fails stands there in part, and a payload too long for a frame is refused
without a call to the sink. -/
theorem writes_hide_script (script : SinkScript) (hmost : script.maxWrite ≠ some 0)
    (calls : List WriterCall) :
    let run := performAll calls script.toSink
    let smooth := performAll calls script.smooth.toSink
    run.1 = smooth.1 ∧ run.2.taken = smooth.2.taken ∧
    (∀ message, run.2.Took (run.2.write message).2 message (run.2.write message).1) ∧
    ∀ channel payload,
      let sent := run.2.sendFrame channel payload
      let header := [0x24, channel, (payload.length / 256).toUInt8, payload.length.toUInt8]
      let frame := header ++ payload
      if 65535 < payload.length then sent = (.error (.frameTooLarge payload.length), run.2)
      else
        run.2.Took sent.2 frame sent.1 ∧ (∀ n, sent.1 = .ok n → n = frame.length) ∧
          ∀ e, sent.1 = .error e → ∃ failure, e = .io failure := by
  intro run smooth
  obtain ⟨hresults, hlast⟩ := performAll_alike hmost (s := script.toSink)
    (t := script.smooth.toSink) ⟨rfl, rfl, rfl⟩ calls
  refine ⟨hresults, hlast.taken_eq, Sink.took_write hmost hlast.rough, fun channel payload => ?_⟩
  intro sent header frame
  split
  · rename_i hlong
    have hencode : Frame.encode channel payload = .error (.frameTooLarge payload.length) := by
      rw [Frame.encode, Frame.header, if_neg (by omega)]
      rfl
    simp only [sent, Sink.sendFrame, hencode]
  · have hencode : Frame.encode channel payload = .ok frame := by
      rw [Frame.encode, Frame.header, if_pos (by omega)]
      rfl
    exact Sink.took_sendFrame hmost hlast.rough hencode

/-- Three bytes at a time, every other call interrupted, and room for seven bytes: a message, an
empty one, a frame that is torn, and one more message. -/
theorem writes_hide_script_torn :
    let script : SinkScript := { interruptEvery := 2, maxWrite := some 3, budget := some 7 }
    let calls := [message [1, 2, 3, 4], message [], frame 0 [5, 6], message [7]]
    script.maxWrite ≠ some 0 ∧
      (performAll calls script.toSink).1 = (performAll calls script.smooth.toSink).1 ∧
      (performAll calls script.toSink).2.taken = [1, 2, 3, 4, 0x24, 0, 0] ∧
      (performAll calls script.toSink).2.writeCalls = 9 ∧
      (performAll calls script.smooth.toSink).2.writeCalls = 4 := by
  intro script calls
  have h := writes_hide_script script (by decide) calls
  exact ⟨by decide, h.1, by decide +kernel, by decide +kernel, by decide +kernel⟩

end WriterCall

end RealTimeStreaming
