import RealTimeStreaming.Proofs.Request.Growth
import RealTimeStreaming.Proofs.Request.Progress

/-! What stands unread in front of a parser that waits. Every element has a bound of its own, which
counts what is skipped in front of it and, in a line, the return that may stand before the line
feed. No more than that is ever left for a later call: of a longer stretch the parser has read an
element, or it has refused it. -/

namespace RealTimeStreaming

/-- So many bytes may stand unread while the end of the next element is waited for. The length
that the body is measured against is the one that the headers announce. -/
def Stage.Tolerates (limits : Limits) (r : Request) (unread : Nat) : Stage → Prop
  | .method => unread ≤ limits.method.toNat
  | .target => unread ≤ limits.uri.toNat
  | .version => unread ≤ 65
  | .headers => unread ≤ limits.headerLine.toNat + 1
  | .body => ∃ text length, r.header? "Content-Length" = some text ∧
      Text.Decimal text.toList length ∧ unread < length ∧ length ≤ limits.body.toNat
  | .done => False
  | .failed _ => False

namespace Parser

variable {limits : Limits} {p q : Parser} {r s : Request} {w x : Bytes} {n : Nat}

/-- The length of the body that a parser waits for is the one announced. -/
structure Announced (limits : Limits) (p : Parser) (r : Request) : Prop where
  limits_eq : p.limits = limits
  length : p.stage = .body → r.announcedLength limits = .ok p.bodyLength

namespace Announced

theorem held (h : Announced limits p r) : Announced limits p (p.held r) where
  limits_eq := h.limits_eq
  length hp := by
    rw [held_of_ne_method (by simp [hp])]
    exact h.length hp

theorem advances (h : Announced limits p r) (hstep : p.Advances r w q s n) :
    Announced limits { q with offset := p.offset + n } s where
  limits_eq := hstep.limits_eq.trans h.limits_eq
  length hq := by
    cases hstep with
    | line hp =>
      simp only [hp] at hq
      cases hq
    | blank _ _ _ hlength => rwa [← h.limits_eq]
    | _ => cases hq

theorem readsTo (h : Announced limits p r) (hreads : ReadsTo x p r q s) : Announced limits q s :=
  hreads.keeps (P := Announced limits) (fun hstep hbefore => hbefore.advances hstep) h

/-- The bounds of the elements, in numbers. -/
theorem tolerates_iff (h : Announced limits p r) (n : Nat) :
    p.stage.Tolerates limits r n ↔ n < p.patience := by
  have hrest : Limits.versionRest = 66 := rfl
  have hlength := h.length
  unfold patience
  rw [h.limits_eq]
  cases hp : p.stage with
  | body =>
    have hannounced := hlength hp
    simp only [Stage.Tolerates]
    constructor
    · rintro ⟨text, length, htext, hdecimal, hlt, hle⟩
      rw [Request.announcedLength_eq_ok_iff.2 (.inr ⟨text, htext, hdecimal, hle⟩)] at hannounced
      cases hannounced
      exact hlt
    · intro hlt
      obtain ⟨-, hzero⟩ | ⟨text, htext, hdecimal, hle⟩ :=
        Request.announcedLength_eq_ok_iff.1 hannounced
      · omega
      · exact ⟨text, _, htext, hdecimal, hlt, hle⟩
  | done => simp [Stage.Tolerates]
  | failed e => simp [Stage.Tolerates]
  | _ =>
    simp only [Stage.Tolerates]
    omega

end Announced

/-- A parser that has more in front of it than it waits on reads an element or refuses it. -/
theorem refuses_or_advances (hp : p.stage.isTerminal = false) (hw : p.patience ≤ w.length) :
    (∃ s e, p.Refuses r w s e) ∨ ∃ q s n, p.Advances r w q s n := by
  rcases hs : p.step r w with ⟨s, reading⟩
  cases reading with
  | needMore =>
    have hlt := length_lt_patience hp (by rw [hs] : (p.step r w).2 = .needMore)
    omega
  | failed e => exact .inl ⟨s, e, refuses_of_step hs⟩
  | complete q n => exact .inr ⟨q, s, n, advances_of_step hs⟩

theorem Stops.of_waiting (h : p.Stops r w q s) (hq : q.stage.isTerminal = false) :
    q = p ∧ s = p.held r ∧ (p.step r w).2 = .needMore := by
  cases h with
  | waits h => exact ⟨rfl, rfl, h⟩
  | fails => cases hq

/-- No element is waited for without end. A new parser that asks for more has in front of it
no more than it tolerates at its element. Wherever it comes on the way with more in front of it
than that, it reads the element or refuses it. -/
theorem unread_tolerated (limits : Limits) (old : Request) (x : Bytes) :
    let p := (({ limits } : Parser).parse old x).1
    let r := (({ limits } : Parser).parse old x).2
    (∀ o, p.result = .ok ⟨o, false⟩ →
      o ≤ x.length ∧ p.stage.Tolerates limits r (x.length - o)) ∧
    ∀ q s, ReadsTo x { limits } old q s → q.stage.isTerminal = false →
      ¬ q.stage.Tolerates limits s (x.length - q.offset) →
        (∃ t e, q.Refuses s (x.drop q.offset) t e) ∨
          ∃ k t n, q.Advances s (x.drop q.offset) k t n := by
  have hnew : Announced limits { limits } old := ⟨rfl, fun h => by cases h⟩
  intro p r
  constructor
  · intro o ho
    have hterminal := isTerminal_of_result ho
    have hoffset : o = p.offset := (offset_of_result ho).1
    have hle : p.offset ≤ x.length := offset_parse_le (Nat.zero_le _) old
    obtain ⟨q, s, hreads, hstops⟩ := readsTo_parse { limits } old x
    obtain ⟨hp, hr, hwaits⟩ : p = q ∧ r = q.held s ∧ (q.step s (x.drop q.offset)).2 = .needMore :=
      hstops.of_waiting hterminal
    have hannounced : Announced limits p r := by
      rw [hp, hr]
      exact (hnew.readsTo hreads).held
    refine ⟨hoffset ▸ hle, ?_⟩
    rw [hannounced.tolerates_iff, hoffset, ← List.length_drop, hp]
    exact length_lt_patience (hp ▸ hterminal) hwaits
  · intro q s hreads hterminal hmore
    rw [(hnew.readsTo hreads).tolerates_iff, ← List.length_drop] at hmore
    exact refuses_or_advances hterminal (Nat.le_of_not_lt hmore)

end Parser

end RealTimeStreaming
