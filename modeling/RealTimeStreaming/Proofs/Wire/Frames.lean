import RealTimeStreaming.Wire.Frame

/-! Frames as a receiver sees them: what a frame's header says of its length, and a wire cut
at the announced lengths, which gives the frames that were put on it. -/

namespace RealTimeStreaming.Frame

variable {channel : UInt8} {payload frame bytes : Bytes}

/-! ### Lengths -/

theorem encode_eq_ok_iff :
    encode channel payload = .ok frame ↔
      ∃ h, header channel payload.length = .ok h ∧ frame = h ++ payload := by
  unfold encode
  cases header channel payload.length with
  | error e => simp [Except.map]
  | ok h => simp [Except.map, eq_comm]

theorem exists_encode (channel : UInt8) (h : payload.length < 65536) :
    ∃ frame, encode channel payload = .ok frame := by
  simp only [encode, header, if_pos h, Except.map]
  exact ⟨_, rfl⟩

theorem length_of_header {length : Nat} {h : Bytes} (hh : header channel length = .ok h) :
    h.length = headerLength := by
  unfold header at hh
  split at hh
  · cases hh
    rfl
  · cases hh

theorem length_of_encode (h : encode channel payload = .ok frame) :
    frame.length = headerLength + payload.length := by
  obtain ⟨head, hhead, rfl⟩ := encode_eq_ok_iff.1 h
  rw [List.length_append, length_of_header hhead]

theorem starts_encode (h : encode channel payload = .ok frame) : starts frame = true := by
  obtain ⟨head, hhead, rfl⟩ := encode_eq_ok_iff.1 h
  unfold header at hhead
  split at hhead
  · cases hhead
    rfl
  · cases hhead

theorem ne_nil_of_encode (h : encode channel payload = .ok frame) : frame ≠ [] := by
  rintro rfl
  exact absurd (starts_encode h) (by decide)

theorem length_le_of_readHeader? {length : Nat}
    (h : readHeader? bytes = some (channel, length)) : length ≤ 65535 := by
  unfold readHeader? at h
  split at h
  · rename_i first ch high low rest
    split at h
    · cases h
      have hh := high.toNat_lt
      have hl := low.toNat_lt
      omega
    · cases h
  · cases h

theorem headerLength_le_of_readHeader? {found : UInt8 × Nat}
    (h : readHeader? bytes = some found) : headerLength ≤ bytes.length := by
  unfold readHeader? at h
  split at h
  · simp only [headerLength, List.length_cons]
    omega
  · cases h

theorem length_lt_of_readHeader?_eq_none (hs : starts bytes) (h : readHeader? bytes = none) :
    bytes.length < headerLength := by
  match bytes with
  | first :: channel :: high :: low :: rest =>
    have hfirst : first = marker := by simpa [starts] using hs
    simp [readHeader?, hfirst] at h
  | [] | [_] | [_, _] | [_, _, _] => simp [headerLength]

/-! ### More bytes behind -/

theorem readHeader?_append {found : UInt8 × Nat} (h : readHeader? bytes = some found)
    (more : Bytes) : readHeader? (bytes ++ more) = some found := by
  unfold readHeader? at h
  split at h
  · exact h
  · cases h

theorem starts_append (h : bytes ≠ []) (more : Bytes) : starts (bytes ++ more) = starts bytes := by
  obtain ⟨b, rest, rfl⟩ := List.exists_cons_of_ne_nil h
  rfl

/-! ### A wire of frames -/

/-- The channel and payload of the frame at the start, once it is whole, and the bytes behind
it. -/
def cut? (bytes : Bytes) : Option ((UInt8 × Bytes) × Bytes) :=
  (readHeader? bytes).bind fun (channel, length) =>
    let rest := bytes.drop headerLength
    if length ≤ rest.length then some ((channel, rest.take length), rest.drop length) else none

theorem cut?_eq_some {found : UInt8 × Bytes} {rest : Bytes} (h : cut? bytes = some (found, rest)) :
    readHeader? bytes = some (found.1, found.2.length) ∧
      bytes.drop headerLength = found.2 ++ rest := by
  unfold cut? at h
  rw [Option.bind_eq_some_iff] at h
  obtain ⟨⟨channel, length⟩, hheader, hcut⟩ := h
  simp only at hcut
  split at hcut
  · rename_i hlong
    cases hcut
    rw [List.length_take, Nat.min_eq_left hlong]
    exact ⟨hheader, (List.take_append_drop _ _).symm⟩
  · cases hcut

theorem cut?_of_readHeader? {rest : Bytes} (h : readHeader? bytes = some (channel, payload.length))
    (hd : bytes.drop headerLength = payload ++ rest) :
    cut? bytes = some ((channel, payload), rest) := by
  rw [cut?, h, Option.bind_some]
  simp only [hd]
  rw [if_pos (by rw [List.length_append]; omega), List.take_left, List.drop_left]

theorem cut?_encode_append (h : encode channel payload = .ok frame) (rest : Bytes) :
    cut? (frame ++ rest) = some ((channel, payload), rest) := by
  obtain ⟨head, hhead, rfl⟩ := encode_eq_ok_iff.1 h
  rw [List.append_assoc]
  apply cut?_of_readHeader? (readHeader?_header hhead _)
  rw [← length_of_header hhead, List.drop_left]

theorem cut?_append {found : UInt8 × Bytes} {rest : Bytes} (h : cut? bytes = some (found, rest))
    (more : Bytes) : cut? (bytes ++ more) = some (found, rest ++ more) := by
  obtain ⟨hheader, hdrop⟩ := cut?_eq_some h
  apply cut?_of_readHeader? (readHeader?_append hheader more)
  rw [List.drop_append_of_le_length (headerLength_le_of_readHeader? hheader), hdrop,
    List.append_assoc]

theorem length_lt_of_cut? {found : UInt8 × Bytes} {rest : Bytes}
    (h : cut? bytes = some (found, rest)) : rest.length < bytes.length := by
  obtain ⟨hheader, hdrop⟩ := cut?_eq_some h
  have hlength := congrArg List.length hdrop
  have hle := headerLength_le_of_readHeader? hheader
  rw [List.length_drop, List.length_append] at hlength
  simp only [headerLength] at hle hlength
  omega

/-- A frame that is cut short is no frame. -/
theorem cut?_take (h : encode channel payload = .ok frame) {n : Nat} (hn : n < frame.length) :
    cut? (frame.take n) = none := by
  rw [Option.eq_none_iff_forall_ne_some]
  rintro ⟨found, rest⟩ hcut
  have hwhole := cut?_append hcut (frame.drop n)
  have hframe := cut?_encode_append h []
  rw [List.take_append_drop] at hwhole
  rw [List.append_nil, hwhole, Option.some.injEq, Prod.mk.injEq, List.append_eq_nil_iff,
    List.drop_eq_nil_iff] at hframe
  exact absurd hframe.2.2 (Nat.not_le_of_gt hn)

/-- The frames that stand one behind the other at the start, and the bytes after the last of
them that is whole. -/
def readAll (bytes : Bytes) : List (UInt8 × Bytes) × Bytes :=
  match h : cut? bytes with
  | none => ([], bytes)
  | some (frame, rest) =>
    have := length_lt_of_cut? h
    (frame :: (readAll rest).1, (readAll rest).2)
termination_by bytes.length

@[simp] theorem readAll_nil : readAll [] = ([], []) := by
  rw [readAll]
  rfl

theorem readAll_of_cut? {found : UInt8 × Bytes} {rest : Bytes}
    (h : cut? bytes = some (found, rest)) :
    readAll bytes = (found :: (readAll rest).1, (readAll rest).2) := by
  rw [readAll]
  split
  · rename_i hnone
    rw [h] at hnone
    cases hnone
  · rename_i frame rest' hsome
    rw [h] at hsome
    cases hsome
    rfl

theorem readAll_of_cut?_eq_none (h : cut? bytes = none) : readAll bytes = ([], bytes) := by
  rw [readAll]
  split
  · rfl
  · rename_i frame rest hsome
    rw [h] at hsome
    cases hsome

theorem readAll_encode (h : encode channel payload = .ok frame) :
    readAll frame = ([(channel, payload)], []) := by
  have hcut := cut?_encode_append h []
  rw [List.append_nil] at hcut
  rw [readAll_of_cut? hcut, readAll_nil]

/-- What stands behind whole frames is read on its own. -/
theorem readAll_append {frames : List (UInt8 × Bytes)} (h : readAll bytes = (frames, []))
    (rest : Bytes) : readAll (bytes ++ rest) = (frames ++ (readAll rest).1, (readAll rest).2) := by
  fun_induction readAll bytes generalizing frames with
  | case1 bytes hnone =>
    cases h
    rfl
  | case2 bytes found left hcut hlt ih =>
    rw [Prod.mk.injEq] at h
    obtain ⟨rfl, hleft⟩ := h
    rw [readAll_of_cut? (cut?_append hcut rest), ih (Prod.ext rfl hleft)]
    rfl

end RealTimeStreaming.Frame
