import RealTimeStreaming.Proofs.Request.Resumption
import RealTimeStreaming.Request.Slot

/-! What a slot answers is final: more bytes change neither the answer nor the value that was read.
Up to the body a parser fills the slots of a request one after the other. -/

namespace RealTimeStreaming

/-- A reader that waits has waited on all shorter stretches. -/
theorem KeepsVerdicts.needMore_of_shorter {α : Type} {read : Bytes → Reading α}
    (h : KeepsVerdicts read) {v w : Bytes} (hv : v <+: w) (hw : read w = .needMore) :
    read v = .needMore := by
  obtain ⟨rest, rfl⟩ := hv
  by_contra hne
  exact hne ((h v rest hne).symm.trans hw)

namespace Slot

variable {limits : Limits} {slot : Slot} {w : Bytes}

theorem read_keepsVerdicts (h : limits.NoWrap) (slot : Slot) :
    KeepsVerdicts (slot.read limits) := by
  unfold read
  cases slot with
  | method m => exact (Method.read_keepsVerdicts limits).check _
  | target uri => exact (readTarget_keepsVerdicts limits).check _
  | version v => exact Version.read_keepsVerdicts.check _
  | headers m => exact (HeaderMap.readLine_keepsVerdicts h m).check _

theorem read_bounds {a : Bool × Slot} {n : Nat} (h : slot.read limits w = .complete a n) :
    1 ≤ n ∧ n ≤ w.length := by
  unfold read at h
  cases slot with
  | method m =>
    obtain ⟨_, hread, -⟩ := Reading.check_eq_complete.1 h
    exact Method.read_bounds hread
  | target uri =>
    obtain ⟨_, hread, -⟩ := Reading.check_eq_complete.1 h
    exact readTarget_bounds hread
  | version v =>
    obtain ⟨_, hread, -⟩ := Reading.check_eq_complete.1 h
    exact Version.read_bounds hread
  | headers m =>
    obtain ⟨_, hread, -⟩ := Reading.check_eq_complete.1 h
    exact HeaderMap.readLine_bounds hread

theorem fill_eq_needMore_iff :
    (slot.fill limits w).1 = .needMore ↔ slot.read limits w = .needMore := by
  unfold fill
  split <;> simp_all

theorem fill_of_needMore (h : slot.read limits w = .needMore) :
    slot.fill limits w = (.needMore, slot) := by
  rw [fill, h]

theorem fill_bounds {full : Bool} {n : Nat} (h : (slot.fill limits w).1 = .complete full n) :
    1 ≤ n ∧ n ≤ w.length := by
  unfold fill at h
  split at h
  · cases h
  · cases h
  next hread =>
    cases h
    exact read_bounds hread

theorem fill_of_failed {e : ParseError} (h : (slot.fill limits w).1 = .failed e) :
    (slot.fill limits w).2 = slot := by
  unfold fill at h ⊢
  split at h
  · cases h
  · rfl
  · cases h

end Slot

/-! ### The slots of a parser -/

namespace Parser

/-- The slot of the request that the parser reads into. -/
def slot? (p : Parser) (r : Request) : Option Slot :=
  match p.stage with
  | .method => some (.method r.method)
  | .target => some (.target r.uri)
  | .version => some (.version r.version)
  | .headers => some (.headers r.headers)
  | _ => none

/-- Puts what was read into the request and goes on, behind the last header with the body. -/
def proceed (p : Parser) (r : Request) (full : Bool) (consumed : Nat) :
    Slot → Request × Reading Parser
  | .method m => ({ r with method := m }, .complete { p with stage := .target } consumed)
  | .target uri => ({ r with uri }, .complete { p with stage := .version } consumed)
  | .version v => ({ r with version := v }, .complete { p with stage := .headers } consumed)
  | .headers headers =>
    let r := { r with headers }
    if full then p.endHeaders r consumed else (r, .complete p consumed)

/-- Up to the body, a step of a parser fills a slot of the request. -/
theorem step_eq_fill {p : Parser} {r : Request} {slot : Slot} (h : p.slot? r = some slot)
    (w : Bytes) :
    p.step r w =
      match slot.fill p.limits w with
      | (.needMore, _) => (p.held r, .needMore)
      | (.failed e, _) => (p.held r, .failed e)
      | (.complete full n, filled) => p.proceed (p.held r) full n filled := by
  unfold slot? at h
  split at h <;> rename_i hp <;> cases h
  · rw [held_of_method hp]
    cases hread : Method.read p.limits w <;>
      simp [step, hp, Slot.fill, Slot.read, hread, Reading.check, store, proceed]
  · rw [held_of_ne_method (by simp [hp])]
    cases hread : readTarget p.limits w <;>
      simp [step, hp, Slot.fill, Slot.read, hread, Reading.check, store, proceed]
  · rw [held_of_ne_method (by simp [hp])]
    cases hread : Version.read w <;>
      simp [step, hp, Slot.fill, Slot.read, hread, Reading.check, store, proceed]
  · rw [held_of_ne_method (by simp [hp])]
    cases hread : r.headers.readLine p.limits w with
    | needMore => simp [step, hp, Slot.fill, Slot.read, hread, Reading.check]
    | failed e => simp [step, hp, Slot.fill, Slot.read, hread, Reading.check]
    | complete line n =>
      cases line <;>
        simp [step, hp, Slot.fill, Slot.read, hread, Reading.check, proceed]

end Parser

/-! ### Answers are final -/

/-- Whatever a slot holds and is shown: an answer other than to wait stands when more bytes come,
and so does the value that it leaves. A slot that waits has waited on all that was shown of the same
bytes before, with the value it had. What is consumed is at least one byte, and no more than is
shown. An error leaves the value as it was. -/
theorem Slot.fill_stable {limits : Limits} (h : limits.NoWrap) (slot : Slot) (w : Bytes) :
    ((slot.fill limits w).1 ≠ .needMore →
      ∀ x, slot.fill limits (w ++ x) = slot.fill limits w) ∧
    ((slot.fill limits w).1 = .needMore →
      ∀ v, v <+: w → slot.fill limits v = (.needMore, slot)) ∧
    (∀ full n, (slot.fill limits w).1 = .complete full n → 1 ≤ n ∧ n ≤ w.length) ∧
    (∀ e, (slot.fill limits w).1 = .failed e → (slot.fill limits w).2 = slot) := by
  have hkeeps := read_keepsVerdicts h slot
  refine ⟨fun hanswer x => ?_, fun hwaits v hv => ?_, fun full n => fill_bounds,
    fun e => fill_of_failed⟩
  · have hread := hkeeps w x (mt fill_eq_needMore_iff.2 hanswer)
    rw [fill, hread, fill]
  · exact fill_of_needMore (hkeeps.needMore_of_shorter hv (fill_eq_needMore_iff.1 hwaits))

/-- A header is stored as soon as its line is whole, whatever follows. -/
theorem Slot.fill_stable_header :
    let limits : Limits := {}
    let slot : Slot := .headers {}
    limits.NoWrap ∧
      ∀ x, slot.fill limits (Text.utf8 "CSeq: 1\r\n" ++ x) =
        (.complete false 9, .headers { entries := [⟨"CSeq", "1"⟩] }) := by
  intro limits slot
  have hwrap : limits.NoWrap := by decide
  have hfill : slot.fill limits (Text.utf8 "CSeq: 1\r\n") =
      (.complete false 9, .headers { entries := [⟨"CSeq", "1"⟩] }) := by
    decide +kernel
  refine ⟨hwrap, fun x => ?_⟩
  rw [(Slot.fill_stable hwrap slot _).1 (by rw [hfill]; exact nofun) x, hfill]

end RealTimeStreaming
