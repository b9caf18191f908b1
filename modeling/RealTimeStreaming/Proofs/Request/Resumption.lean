import Mathlib.Data.List.Infix
import RealTimeStreaming.Proofs.Request.Stability

/-! Resuming a parse. A run over some bytes followed by a run over the bytes behind them is
one run over all of them, and a run that had to wait is left as it is by any shorter
stretch. Hence a parser that is shown prefixes of one stream, in any order and as often as
one likes, ends where a single parse of the longest of them ends. -/

namespace RealTimeStreaming.Parser

variable {p q : Parser} {r s : Request} {w v : Bytes} {n : Nat}

/-! ### One step -/

/-- The request while the parser waits. One that has not begun is blank, whatever stood
there before. -/
def held (p : Parser) (r : Request) : Request :=
  match p.stage with
  | .method => r.clear
  | _ => r

theorem held_of_method (h : p.stage = .method) (r : Request) : p.held r = r.clear := by
  simp [held, h]

theorem held_of_ne_method (h : p.stage ≠ .method) (r : Request) : p.held r = r := by
  unfold held
  split
  · contradiction
  · rfl

theorem capacity_held (p : Parser) (r : Request) :
    (p.held r).headers.capacity = r.headers.capacity := by
  unfold held
  split <;> rfl

theorem held_held (p : Parser) (r : Request) : p.held (p.held r) = p.held r := by
  unfold held
  split <;> simp

theorem step_held (p : Parser) (r : Request) (w : Bytes) : p.step (p.held r) w = p.step r w := by
  by_cases h : p.stage = .method
  · rw [held_of_method h]
    simp [step, h]
  · rw [held_of_ne_method h]

theorem store_eq_needMore {α : Type} {reading : Reading α} {put : α → Request}
    (h : (store reading r put q).2 = .needMore) :
    reading = .needMore ∧ (store reading r put q).1 = r := by
  cases reading with
  | needMore => exact ⟨rfl, rfl⟩
  | failed e => cases h
  | complete a n => cases h

theorem store_eq_failed_iff {α : Type} {reading : Reading α} {put : α → Request}
    {next : Parser} {e : ParseError} :
    store reading r put next = (s, .failed e) ↔ reading = .failed e ∧ s = r := by
  cases reading with
  | needMore => simp [store]
  | failed e => simp [store, and_comm, eq_comm]
  | complete a m => simp [store]

theorem endHeaders_ne_needMore (p : Parser) (r : Request) (n : Nat) :
    (p.endHeaders r n).2 ≠ .needMore := by
  simp only [endHeaders]
  split
  · simp
  · split <;> simp

/-- A step that waits leaves nothing behind but a blank request where one has not begun. -/
theorem step_eq_needMore (h : (p.step r w).2 = .needMore) : (p.step r w).1 = p.held r := by
  unfold step at h ⊢
  unfold held
  split at h <;> rename_i hs <;> simp only [hs]
  · exact (store_eq_needMore h).2
  · exact (store_eq_needMore h).2
  · exact (store_eq_needMore h).2
  · split at h
    · rfl
    · cases h
    · cases h
    · exact absurd h (endHeaders_ne_needMore p r _)
  · split at h
    · rename_i hw
      rw [if_pos hw]
    · cases h

theorem held_eq_of_step (h : p.step r w = (s, .needMore)) : p.held r = s := by
  rw [← step_eq_needMore (by rw [h] : (p.step r w).2 = .needMore), h]

/-- A step that has read an element or failed does the same when more bytes have arrived.
Only an error about a line asks for its limit not to wrap. -/
theorem step_append (h : (p.step r w).2 ≠ .needMore)
    (hl : p.limits.NoWrap ∨ ∃ q n, (p.step r w).2 = .complete q n) (v : Bytes) :
    p.step r (w ++ v) = p.step r w := by
  unfold step at h hl ⊢
  split at h <;> rename_i hs <;> simp only [hs] at hl ⊢
  · rw [Method.read_keepsVerdicts p.limits w v]
    intro hn
    exact h (by rw [hn]; rfl)
  · rw [readTarget_keepsVerdicts p.limits w v]
    intro hn
    exact h (by rw [hn]; rfl)
  · rw [Version.read_keepsVerdicts w v]
    intro hn
    exact h (by rw [hn]; rfl)
  · have hk : r.headers.readLine p.limits (w ++ v) = r.headers.readLine p.limits w := by
      cases hr : r.headers.readLine p.limits w with
      | needMore => simp [hr] at h
      | failed e =>
        have hn : p.limits.NoWrap := by simpa [hr] using hl
        rw [HeaderMap.readLine_keepsVerdicts hn _ w v (by simp [hr]), hr]
      | complete line n => exact HeaderMap.readLine_keepsValues _ _ w v line n hr
    rw [hk]
  · by_cases hw : w.length < p.bodyLength
    · simp [hw] at h
    · rw [if_neg hw, if_neg (by rw [List.length_append]; omega),
        List.take_append_of_le_length (by omega)]

/-! ### Runs -/

theorem run_of_needMore (h : p.step r w = (s, .needMore)) : p.run r w = (p, s) := by
  unfold run
  split <;> simp_all

theorem run_of_failed {e : ParseError} (h : p.step r w = (s, .failed e)) :
    p.run r w = ({ p with stage := .failed e }, s) := by
  unfold run
  split <;> simp_all

theorem run_of_complete (h : p.step r w = (s, .complete q n)) :
    p.run r w = run { q with offset := p.offset + n } s (w.drop n) := by
  conv => lhs; unfold run
  split <;> simp_all

theorem run_congr {t : Request} (h : p.step r w = p.step t w) : p.run r w = p.run t w := by
  rcases hs : p.step t w with ⟨u, reading⟩
  cases reading with
  | needMore => rw [run_of_needMore hs, run_of_needMore (h.trans hs)]
  | failed e => rw [run_of_failed hs, run_of_failed (h.trans hs)]
  | complete q n => rw [run_of_complete hs, run_of_complete (h.trans hs)]

theorem run_held (p : Parser) (r : Request) (w : Bytes) : p.run (p.held r) w = p.run r w :=
  run_congr (step_held p r w)

theorem run_of_terminal (h : p.stage.isTerminal) (r : Request) (w : Bytes) :
    p.run r w = (p, r) := by
  apply run_of_waits
  unfold waits
  split <;> simp_all [Stage.isTerminal]

theorem isTerminal_of_result (h : p.result = .ok ⟨n, false⟩) : p.stage.isTerminal = false := by
  unfold result at h
  cases hs : p.stage <;> simp_all [Stage.isTerminal]

theorem limits_run (p : Parser) (r : Request) (w : Bytes) :
    (p.run r w).1.limits = p.limits := by
  fun_induction run p r w with
  | case1 => rfl
  | case2 => rfl
  | case3 p r w s q n h ih =>
    have hq := limits_of_step h
    exact ih.trans hq

theorem offset_run_le (p : Parser) (r : Request) (w : Bytes) :
    (p.run r w).1.offset ≤ p.offset + w.length := by
  fun_induction run p r w with
  | case1 => exact Nat.le_add_right _ _
  | case2 => exact Nat.le_add_right _ _
  | case3 p r w s q n h ih =>
    have hn := le_length_of_step h
    simp only [List.length_drop] at ih
    omega

/-- A finished request stays as it is when more bytes have arrived. -/
theorem run_append_of_done (h : (p.run r w).1.stage = .done) (v : Bytes) :
    p.run r (w ++ v) = p.run r w := by
  fun_induction run p r w with
  | case1 p r w s hs =>
    have hr : (p.run r w) = (p, r) := run_of_terminal (by simp_all [Stage.isTerminal]) r w
    rw [run_of_terminal (by simp_all [Stage.isTerminal]), ← hr, run_of_needMore hs]
  | case2 => cases h
  | case3 p r w s q n hs ih =>
    have hw : p.step r (w ++ v) = (s, .complete q n) := by
      rw [step_append (by simp [hs]) (.inr ⟨q, n, by rw [hs]⟩), hs]
    rw [run_of_complete hw, List.drop_append_of_le_length (le_length_of_step hs), ih h]

/-- A run over all bytes is a run over the first of them, followed by one over what that
has left and the bytes behind. Only where the first run fails is it asked that the limit of
a line does not wrap. -/
theorem run_append (hl : p.limits.NoWrap ∨ ∀ e, (p.run r w).1.stage ≠ .failed e) (v : Bytes) :
    p.run r (w ++ v) =
      (p.run r w).1.run (p.run r w).2 ((w ++ v).drop ((p.run r w).1.offset - p.offset)) := by
  fun_induction run p r w with
  | case1 p r w s hs =>
    have hh := held_eq_of_step hs
    rw [Nat.sub_self, List.drop_zero, ← hh, run_held]
  | case2 p r w s e hs =>
    have hn : p.limits.NoWrap := hl.resolve_right fun hf => hf e rfl
    rw [run_of_failed ((step_append (by simp [hs]) (.inl hn) v).trans hs)]
    exact (run_of_terminal rfl _ _).symm
  | case3 p r w s q n hs ih =>
    have hn := le_length_of_step hs
    have ho := offset_le_run { q with offset := p.offset + n } s (w.drop n)
    rw [← limits_of_step hs] at hl
    simp only at ho ih
    rw [run_of_complete ((step_append (by simp [hs]) (.inr ⟨q, n, by rw [hs]⟩) v).trans hs),
      List.drop_append_of_le_length hn, ih hl,
      ← List.drop_append_of_le_length hn, List.drop_drop]
    congr 2
    omega

/-- After a run the parser waits on what the run has left. -/
theorem step_run (p : Parser) (r : Request) (w : Bytes) :
    (p.run r w).1.step (p.run r w).2 (w.drop ((p.run r w).1.offset - p.offset)) =
      ((p.run r w).2, .needMore) := by
  fun_induction run p r w with
  | case1 p r w s hs =>
    have hh := held_eq_of_step hs
    rw [Nat.sub_self, List.drop_zero, ← hh, step_held, hs, hh]
  | case2 => rfl
  | case3 p r w s q n hs ih =>
    have ho := offset_le_run { q with offset := p.offset + n } s (w.drop n)
    simp only at ho ih
    rw [List.drop_drop] at ih
    rw [← ih]
    congr 2
    omega

/-- A parser that waits on some bytes waits on any shorter stretch. -/
theorem run_of_shorter (hl : p.limits.NoWrap) (h : p.step r w = (r, .needMore)) (hv : v <+: w) :
    p.run r v = (p, r) := by
  obtain ⟨u, rfl⟩ := hv
  have hw : (p.step r v).2 = .needMore := by
    by_contra hn
    have ha := step_append hn (.inl hl) u
    rw [← ha, h] at hn
    exact hn rfl
  have hr : (p.step r v).1 = r := by
    rw [step_eq_needMore hw, held_eq_of_step h]
  exact run_of_needMore (Prod.ext hr hw)

/-- A parser at the start that has not consumed a byte is as it was, unless it has failed. -/
theorem run_of_offset_eq (hp : p.stage = .method) (w : Bytes)
    (ho : (p.run r w).1.offset = p.offset) (hs : (p.run r w).1.stage.isTerminal = false) :
    (p.run r w).1 = p := by
  rcases h : p.step r w with ⟨s, reading⟩
  cases reading with
  | needMore => rw [run_of_needMore h]
  | failed e =>
    rw [run_of_failed h] at hs
    cases hs
  | complete q n =>
    have hn := step_consumes (by rw [hp]; decide) h
    have hle := offset_le_run { q with offset := p.offset + n } s (w.drop n)
    rw [run_of_complete h] at ho
    simp only at hle
    omega

/-! ### Inputs shown one after the other -/

section Inputs

variable {x y : Bytes}

theorem offset_parse_le (ho : p.offset ≤ x.length) (r : Request) :
    (p.parse r x).1.offset ≤ x.length := by
  have h := offset_run_le p r (x.drop p.offset)
  rw [List.length_drop] at h
  unfold parse
  omega

theorem parse_append_of_done (ho : p.offset ≤ x.length) (h : (p.parse r x).1.stage = .done)
    (y : Bytes) : p.parse r (x ++ y) = p.parse r x := by
  rw [parse, List.drop_append_of_le_length ho]
  exact run_append_of_done h y

/-- A parse goes on where one over fewer bytes had to wait. -/
theorem parse_parse_of_shorter
    (hl : p.limits.NoWrap ∨ ∀ e, (p.parse r x).1.stage ≠ .failed e) (ho : p.offset ≤ x.length)
    (h : x <+: y) : (p.parse r x).1.parse (p.parse r x).2 y = p.parse r y := by
  obtain ⟨z, rfl⟩ := h
  have hx := offset_le_run p r (x.drop p.offset)
  have hd : (x ++ z).drop p.offset = x.drop p.offset ++ z := List.drop_append_of_le_length ho
  rw [parse, parse, parse, hd, run_append hl, ← hd, List.drop_drop]
  congr 2
  omega

theorem parse_append_of_terminal (hl : p.limits.NoWrap) (ho : p.offset ≤ x.length)
    (h : (p.parse r x).1.stage.isTerminal) (y : Bytes) : p.parse r (x ++ y) = p.parse r x := by
  rw [← parse_parse_of_shorter (.inl hl) ho (List.prefix_append x y)]
  exact run_of_terminal h _ _

/-- Showing fewer bytes than before changes nothing. -/
theorem parse_parse_of_longer (hl : p.limits.NoWrap) (h : y <+: x) (r : Request) :
    (p.parse r x).1.parse (p.parse r x).2 y = p.parse r x := by
  have hx := offset_le_run p r (x.drop p.offset)
  have hs := step_run p r (x.drop p.offset)
  rw [List.drop_drop, Nat.add_sub_cancel' hx] at hs
  exact run_of_shorter (by rwa [parse, limits_run]) hs (h.drop _)

theorem parse_nil (hp : p.stage = .method) (r : Request) : p.parse r [] = (p, p.held r) := by
  have hs : p.step r [] = (r.clear, .needMore) := by
    simp only [step, hp]
    rfl
  rw [parse, List.drop_nil, run_of_needMore hs, held_of_method hp]

/-- Shows the parser inputs one after the other. -/
def parseAll (p : Parser) (r : Request) : List Bytes → Parser × Request
  | [] => (p, r)
  | x :: rest =>
    let (p, r) := p.parse r x
    p.parseAll r rest

theorem parseAll_cons (p : Parser) (r : Request) (x : Bytes) (rest : List Bytes) :
    p.parseAll r (x :: rest) = (p.parse r x).1.parseAll (p.parse r x).2 rest := rfl

/-- The invariant of showing prefixes of one stream: what there is comes from one parse, of
the longest prefix so far. -/
theorem parseAll_parse (hl : p.limits.NoWrap) (ho : p.offset = 0) (r : Request) (stream : Bytes)
    (cut : Nat) (cuts : List Nat) :
    (p.parse r (stream.take cut)).1.parseAll (p.parse r (stream.take cut)).2
        (cuts.map stream.take) =
      p.parse r (stream.take (cuts.foldl max cut)) := by
  induction cuts generalizing cut with
  | nil => rfl
  | cons next rest ih =>
    rw [List.map_cons, parseAll_cons, List.foldl_cons]
    rcases Nat.le_total cut next with h | h
    · rw [parse_parse_of_shorter (.inl hl) (by omega) (List.take_prefix_take_left h),
        Nat.max_eq_right h]
      exact ih next
    · rw [parse_parse_of_longer hl (List.take_prefix_take_left h), Nat.max_eq_left h]
      exact ih cut

/-- What is shown at last decides, if the parts shown before are prefixes of it. -/
theorem parseAll_take_snoc (hl : p.limits.NoWrap) (ho : p.offset = 0) (r : Request) (x : Bytes)
    (cuts : List Nat) : p.parseAll r (cuts.map x.take ++ [x]) = p.parse r x := by
  cases cuts with
  | nil => rfl
  | cons cut cuts =>
    have hinputs : (cut :: cuts).map x.take ++ [x] =
        x.take cut :: (cuts ++ [x.length]).map x.take := by simp
    have hlongest : x.length ≤ (cuts ++ [x.length]).foldl max cut := by
      rw [List.foldl_append]
      exact Nat.le_max_right _ _
    rw [hinputs, parseAll_cons, parseAll_parse hl ho, List.take_of_length_le hlongest]

/-- A parser at the start of a request takes nothing over from an old one but the room for
headers. -/
theorem parse_eq_of_method (hp : p.stage = .method) (r : Request) (x : Bytes) :
    p.parse r x = p.parse (.blank r.headers.capacity) x := by
  rw [parse, ← run_held, held_of_method hp]
  rfl

/-- However often and in whatever order a parser is shown prefixes of a stream, it answers
and leaves what one parse of the longest of them does. Neither its own past before a reset
nor what stood in the request matters. -/
theorem parseAll_eq_parse_longest {limits : Limits} (hl : limits.NoWrap)
    (hp : p = { limits } ∨ ∃ q : Parser, q.limits = limits ∧ p = q.reset) (r : Request)
    (stream : Bytes) (cut : Nat) (cuts : List Nat) :
    p.parseAll r ((cut :: cuts).map stream.take) =
      ({ limits } : Parser).parse (.blank r.headers.capacity)
        (stream.take (cuts.foldl max cut)) := by
  have hp' : p = { limits } := by
    rcases hp with rfl | ⟨q, rfl, rfl⟩ <;> rfl
  subst hp'
  rw [← parse_eq_of_method rfl, List.map_cons, parseAll_cons]
  exact parseAll_parse hl rfl r stream cut cuts

/-- A reset parser with a used request is shown 20, 36, 6 and 32 bytes of a stream, cut
inside a token, behind the end, and in front of a line feed. -/
theorem parseAll_play_eq_parse_longest :
    ({} : Limits).NoWrap ∧
      (reset { stage := .body, offset := 9, bodyLength := 4 }).parseAll
          { uri := "*", cseq := 5, body := [1, 2] }
          ([20, 36, 6, 32].map (Text.utf8 "PLAY rtsp://x RTSP/1.0\r\nCSeq: 3\r\n\r\n$").take) =
        ({} : Parser).parse (.blank 32)
          ((Text.utf8 "PLAY rtsp://x RTSP/1.0\r\nCSeq: 3\r\n\r\n$").take 36) :=
  ⟨by decide, parseAll_eq_parse_longest (by decide) (.inr ⟨_, rfl, rfl⟩) _ _ _ _⟩

end Inputs

end RealTimeStreaming.Parser
