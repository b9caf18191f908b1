import RealTimeStreaming.Proofs.Request.Acceptance

/-! How a parser gets on through windows of any content, which need not be parts of one stream. A
call reads whole elements, each where the one before it ended, and stops in front of one that it
waits for or refuses. So the offset and the stage only go forward, a fault stands behind all that
has been consumed, and a parser that has finished or failed stays as it is. -/

namespace RealTimeStreaming.Parser

variable {p q k : Parser} {r s t : Request} {w x : Bytes} {n : Nat} {e : ParseError}

/-! ### Elements that are refused -/

/-- Why a step refuses the element at the start of the window, and the request that this leaves. -/
inductive Refuses (p : Parser) (r : Request) (window : Bytes) : Request → ParseError → Prop
  | method {e : ParseError} (hp : p.stage = .method)
      (h : Method.read p.limits window = .failed e) : Refuses p r window r.clear e
  | target {e : ParseError} (hp : p.stage = .target)
      (h : readTarget p.limits window = .failed e) : Refuses p r window r e
  | version {e : ParseError} (hp : p.stage = .version) (h : Version.read window = .failed e) :
      Refuses p r window r e
  | line {e : ParseError} (hp : p.stage = .headers)
      (h : r.headers.readLine p.limits window = .failed e) : Refuses p r window r e
  | sequence {e : ParseError} {n : Nat} (hp : p.stage = .headers)
      (h : r.headers.readLine p.limits window = .complete .blank n)
      (hsequence : r.sequence = .error e) : Refuses p r window r e
  | length {e : ParseError} {cseq : UInt32} {n : Nat} (hp : p.stage = .headers)
      (h : r.headers.readLine p.limits window = .complete .blank n)
      (hsequence : r.sequence = .ok cseq) (hlength : r.announcedLength p.limits = .error e) :
      Refuses p r window { r with cseq } e

theorem refuses_of_endHeaders (hp : p.stage = .headers)
    (hread : r.headers.readLine p.limits w = .complete .blank n)
    (h : p.endHeaders r n = (s, .failed e)) : p.Refuses r w s e := by
  have hannounced (cseq : UInt32) :
      Request.announcedLength p.limits { r with cseq } = r.announcedLength p.limits := rfl
  simp only [endHeaders, hannounced] at h
  split at h
  · rename_i hsequence
    cases h
    exact .sequence hp hread hsequence
  · rename_i cseq hsequence
    split at h
    · rename_i hlength
      cases h
      exact .length hp hread hsequence hlength
    · cases h

theorem refuses_of_step (h : p.step r w = (s, .failed e)) : p.Refuses r w s e := by
  unfold step at h
  split at h <;> rename_i hp
  · obtain ⟨hread, rfl⟩ := store_eq_failed_iff.1 h
    exact .method hp hread
  · obtain ⟨hread, rfl⟩ := store_eq_failed_iff.1 h
    exact .target hp hread
  · obtain ⟨hread, rfl⟩ := store_eq_failed_iff.1 h
    exact .version hp hread
  · split at h
    · cases h
    · rename_i hread
      cases h
      exact .line hp hread
    · cases h
    · rename_i hread
      exact refuses_of_endHeaders hp hread h
  · split at h <;> cases h
  · cases h
  · cases h

/-! ### One call -/

theorem Advances.rank_le (h : p.Advances r w q s n) : q.stage.rank ≤ p.stage.rank := by
  cases h with
  | line => exact Nat.le_refl _
  | _ hp => simp [hp, Stage.rank]

theorem Advances.limits_eq (h : p.Advances r w q s n) : q.limits = p.limits := by
  cases h <;> rfl

/-- Whole elements of the input lead from one point of a request to another, each read where the
one before it ended. -/
inductive ReadsTo (input : Bytes) : Parser → Request → Parser → Request → Prop
  | here (p : Parser) (r : Request) : ReadsTo input p r p r
  | element {p q k : Parser} {r s t : Request} {n : Nat}
      (first : p.Advances r (input.drop p.offset) q s n)
      (rest : ReadsTo input { q with offset := p.offset + n } s k t) : ReadsTo input p r k t

namespace ReadsTo

theorem rank_le (h : ReadsTo x p r q s) : q.stage.rank ≤ p.stage.rank := by
  induction h with
  | here => exact Nat.le_refl _
  | element first _ ih => exact Nat.le_trans ih first.rank_le

/-- What every element keeps holds at the end of them. -/
theorem keeps {P : Parser → Request → Prop} (h : ReadsTo x p r q s)
    (hstep : ∀ {p q : Parser} {r s : Request} {w : Bytes} {n : Nat}, p.Advances r w q s n →
      P p r → P { q with offset := p.offset + n } s) (hp : P p r) : P q s := by
  induction h with
  | here => exact hp
  | element first _ ih => exact ih (hstep first hp)

/-- Elements that are read lead to no failure. -/
theorem stage_ne_failed (h : ReadsTo x p r q s) (hp : p.stage.isTerminal = false)
    (e : ParseError) : q.stage ≠ .failed e := by
  refine h.keeps (P := fun q _ => q.stage ≠ .failed e) ?_ ?_
  · intro p q r s w n first hne
    cases first with
    | line hstage => exact hne
    | _ => simp
  · intro hfailed
    rw [hfailed] at hp
    cases hp

end ReadsTo

/-- How a call ends in front of an element: with a parser that waits for it, or that has failed. -/
inductive Stops (p : Parser) (r : Request) (window : Bytes) : Parser → Request → Prop
  | waits (h : (p.step r window).2 = .needMore) : Stops p r window p (p.held r)
  | fails {s : Request} {e : ParseError} (h : p.Refuses r window s e) :
      Stops p r window { p with stage := .failed e } s

theorem readsTo_run (h : w = x.drop p.offset) :
    ∃ q s, ReadsTo x p r q s ∧ q.Stops s (x.drop q.offset) (p.run r w).1 (p.run r w).2 := by
  fun_induction run p r w with
  | case1 p r w s hs =>
    obtain rfl := held_eq_of_step hs
    exact ⟨p, r, .here p r, .waits (by rw [← h, hs])⟩
  | case2 p r w s e hs => exact ⟨p, r, .here p r, .fails (h ▸ refuses_of_step hs)⟩
  | case3 p r w s q n hs ih =>
    subst h
    obtain ⟨k, t, hreads, hstops⟩ := ih List.drop_drop
    exact ⟨k, t, .element (advances_of_step hs) hreads, hstops⟩

/-- A call reads whole elements up to one that it waits for or refuses. -/
theorem readsTo_parse (p : Parser) (r : Request) (x : Bytes) :
    ∃ q s, ReadsTo x p r q s ∧
      q.Stops s (x.drop q.offset) (p.parse r x).1 (p.parse r x).2 :=
  readsTo_run rfl

theorem Stops.rank_le (h : p.Stops r w q s) : q.stage.rank ≤ p.stage.rank := by
  cases h with
  | waits => exact Nat.le_refl _
  | fails => exact Nat.zero_le _

theorem Stops.offset_eq (h : p.Stops r w q s) : q.offset = p.offset := by
  cases h <;> rfl

/-- A call that consumes anything stays within what it is shown. -/
theorem offset_parse_le_of_lt (h : p.offset < (p.parse r x).1.offset) :
    (p.parse r x).1.offset ≤ x.length := by
  have hle := offset_run_le p r (x.drop p.offset)
  rw [List.length_drop] at hle
  unfold parse at h ⊢
  omega

theorem offset_of_result {status : Status} (h : p.result = .ok status) :
    status.offset = p.offset ∧ (status.isComplete ↔ p.stage = .done) := by
  unfold result at h
  split at h <;> rename_i hp <;> cases h
  · simp [hp]
  · simp_all

theorem Stops.refuses_of_failed (h : p.Stops r w q s) (hq : q.stage = .failed e)
    (hp : p.stage ≠ .failed e) : p.Refuses r w s e := by
  cases h with
  | waits => exact absurd hq hp
  | fails h =>
    cases hq
    exact h

/-! ### Any number of calls -/

/-- What lies between two points in the life of a parser that is not reset. -/
structure Forward (p : Parser) (r : Request) (q : Parser) (s : Request) : Prop where
  offset_le : p.offset ≤ q.offset
  rank_le : q.stage.rank ≤ p.stage.rank
  frozen : p.stage.isTerminal → (q, s) = (p, r)

namespace Forward

theorem refl (p : Parser) (r : Request) : Forward p r p r :=
  ⟨Nat.le_refl _, Nat.le_refl _, fun _ => rfl⟩

theorem trans (h : Forward p r q s) (h' : Forward q s k t) : Forward p r k t where
  offset_le := Nat.le_trans h.offset_le h'.offset_le
  rank_le := Nat.le_trans h'.rank_le h.rank_le
  frozen hp := by
    obtain ⟨rfl, rfl⟩ := Prod.ext_iff.1 (h.frozen hp)
    exact h'.frozen hp

end Forward

theorem forward_parse (p : Parser) (r : Request) (x : Bytes) :
    Forward p r (p.parse r x).1 (p.parse r x).2 where
  offset_le := offset_le_run p r _
  rank_le := by
    obtain ⟨q, s, hreads, hstops⟩ := readsTo_parse p r x
    exact Nat.le_trans hstops.rank_le hreads.rank_le
  frozen hp := run_of_terminal hp r _

theorem forward_parseAll (p : Parser) (r : Request) (inputs : List Bytes) :
    Forward p r (p.parseAll r inputs).1 (p.parseAll r inputs).2 := by
  induction inputs generalizing p r with
  | nil => exact .refl p r
  | cons x inputs ih => exact (forward_parse p r x).trans (ih _ _)

/-- A parser only goes forward, whatever it is shown. Between any two points of its life the
offset does not fall and the stage does not go back, and none of it changes any more once the
parser has finished or failed. A call that consumes something stays within its input. It answers
with the offset, and with the end of the request exactly in the last stage. A call that fails has
come to the end of a whole element, and what it refuses starts there. -/
theorem parseAll_goes_forward (limits : Limits) (r : Request) (seen later : List Bytes)
    (x : Bytes) :
    let now := ({ limits } : Parser).parseAll r seen
    let next := now.1.parse now.2 x
    let last := now.1.parseAll now.2 later
    now.1.offset ≤ last.1.offset ∧ last.1.stage.rank ≤ now.1.stage.rank ∧
    (now.1.stage.isTerminal → last = now) ∧
    (now.1.offset < next.1.offset → next.1.offset ≤ x.length) ∧
    (∀ status, next.1.result = .ok status →
      status.offset = next.1.offset ∧ (status.isComplete ↔ next.1.stage = .done)) ∧
    ∀ e, next.1.result = .error e →
      now.1.result = .error e ∨
        now.1.stage.isTerminal = false ∧
          ∃ q s t, ReadsTo x now.1 now.2 q s ∧ q.offset = next.1.offset ∧
            q.Refuses s (x.drop q.offset) t e := by
  intro now next last
  have hforward : Forward now.1 now.2 last.1 last.2 := forward_parseAll now.1 now.2 later
  refine ⟨hforward.offset_le, hforward.rank_le, hforward.frozen, offset_parse_le_of_lt,
    fun status => offset_of_result, ?_⟩
  intro e he
  by_cases hterminal : now.1.stage.isTerminal
  · left
    have hnext : next = now := run_of_terminal hterminal _ _
    rw [← hnext, he]
  · right
    rw [Bool.not_eq_true] at hterminal
    have he : next.1.stage = .failed e := result_eq_error_iff.1 he
    obtain ⟨q, s, hreads, hstops⟩ := readsTo_parse now.1 now.2 x
    refine ⟨hterminal, q, s, next.2, hreads, hstops.offset_eq.symm, hstops.refuses_of_failed he ?_⟩
    exact hreads.stage_ne_failed hterminal e

end RealTimeStreaming.Parser
