import RealTimeStreaming.Proofs.Session.Protocol

/-! What the hooks of a dispatch see of the exchange. Every look finds what the acts ahead of it
have made of the exchange, so the first two hooks see whether something was answered. The last hook
does not: the outcome is taken out of the exchange before it looks, an exchange without an outcome
looks as if nothing was answered, and the last hook cannot answer. -/

namespace RealTimeStreaming

/-! ### Acts and looks -/

/-- One thing that a hook does to an exchange, or sees of it. -/
inductive Sighting where
  | did (act : Act)
  | saw (view : ExchangeView)
deriving DecidableEq, Repr

namespace Sighting

def act? : Sighting → Option Act
  | .did act => some act
  | .saw _ => none

def acts (sightings : List Sighting) : List Act :=
  sightings.filterMap act?

@[simp] theorem acts_nil : acts [] = [] := rfl

@[simp] theorem acts_did (act : Act) (rest : List Sighting) :
    acts (.did act :: rest) = act :: acts rest := rfl

@[simp] theorem acts_saw (view : ExchangeView) (rest : List Sighting) :
    acts (.saw view :: rest) = acts rest := rfl

theorem acts_append (front later : List Sighting) :
    acts (front ++ later) = acts front ++ acts later :=
  List.filterMap_append

end Sighting

namespace Exchange

/-- Every look finds the exchange as the acts ahead of it have made it. -/
def Shows : Exchange → List Sighting → Prop
  | _, [] => True
  | x, .did act :: rest => (act.run x).Shows rest
  | x, .saw view :: rest => view = x.view ∧ x.Shows rest

theorem shows_append (x : Exchange) (front later : List Sighting) :
    x.Shows (front ++ later) ↔
      x.Shows front ∧ (x.performAll (Sighting.acts front)).Shows later := by
  induction front generalizing x with
  | nil => simp [Shows]
  | cons sighting front ih =>
    cases sighting with
    | did act => exact ih (act.run x)
    | saw view => simp [Shows, ih, and_assoc]

theorem view_run (act : Act) (x : Exchange) :
    (act.run x).view = { x.view with hasResponded := x.hasResponded || act.isResponse } := by
  rw [view, hasResponded_run]
  cases act with
  | respond status reason => rw [Act.run, respond_eq]; rfl
  | _ => rfl

theorem view_performAll (x : Exchange) (acts : List Act) :
    (x.performAll acts).view =
      { x.view with hasResponded := x.hasResponded || acts.any Act.isResponse } := by
  induction acts generalizing x with
  | nil => simp [view]
  | cons act acts ih =>
    rw [performAll_cons, ih, view_run, hasResponded_run, List.any_cons, Bool.or_assoc]

end Exchange

/-! ### Sightings of a handler -/

namespace Handler

variable {α : Type}

/-- What a handler does to an exchange and sees of it, in order. -/
def sightings : Handler α → Exchange → List Sighting
  | .done _, _ => []
  | .header name value next, x =>
    .did (.header name value) :: next.sightings (x.stageHeader name value)
  | .body content next, x => .did (.body content) :: next.sightings (x.stageBody content)
  | .respond status reason next, x =>
    let (result, y) := x.respond status reason
    .did (.respond status reason) :: (next result).sightings y
  | .sendFrame channel payload next, x =>
    let (result, y) := x.sendFrame channel payload
    .did (.sendFrame channel payload) :: (next result).sightings y
  | .look next, x => .saw x.view :: (next x.view).sightings x
  | .start _ next, x => next.sightings x

/-- The handler with a log of what it does and sees. -/
def watched : Handler α → List Sighting → Handler (α × List Sighting)
  | .done value, log => .done (value, log)
  | .header name value next, log =>
    .header name value (next.watched (log ++ [.did (.header name value)]))
  | .body content next, log => .body content (next.watched (log ++ [.did (.body content)]))
  | .respond status reason next, log =>
    .respond status reason fun result =>
      (next result).watched (log ++ [.did (.respond status reason)])
  | .sendFrame channel payload next, log =>
    .sendFrame channel payload fun result =>
      (next result).watched (log ++ [.did (.sendFrame channel payload)])
  | .look next, log => .look fun view => (next view).watched (log ++ [.saw view])
  | .start stream next, log => .start stream (next.watched log)

theorem run_watched (h : Handler α) (log : List Sighting) (x : Exchange) :
    (h.watched log).run x = (((h.run x).1, log ++ h.sightings x), (h.run x).2) := by
  induction h generalizing log x with
  | done value => simp [watched, run, sightings]
  | header name value next ih => simp [watched, run, sightings, ih]
  | body content next ih => simp [watched, run, sightings, ih]
  | respond status reason next ih => simp [watched, run, sightings, ih]
  | sendFrame channel payload next ih => simp [watched, run, sightings, ih]
  | look next ih => simp [watched, run, sightings, ih]
  | start stream next ih => simp [watched, run, sightings, ih]

theorem Bare.watched {h : Handler α} (hbare : h.Bare) (log : List Sighting) :
    (h.watched log).Bare := by
  induction h generalizing log with
  | done value => trivial
  | header => exact hbare.elim
  | body => exact hbare.elim
  | respond => exact hbare.elim
  | sendFrame channel payload next ih => exact fun result => ih result (hbare result) _
  | look next ih => exact fun view => ih view (hbare view) _
  | start stream next ih => exact ih hbare log

/-- A bare handler sees the exchange as it was at the start. -/
theorem Bare.saw_view {h : Handler α} (hbare : h.Bare) (x : Exchange) :
    ∀ sighting ∈ h.sightings x, sighting = .saw x.view ∨
      ∃ channel payload, sighting = .did (.sendFrame channel payload) := by
  induction h generalizing x with
  | done value => simp [sightings]
  | header => exact hbare.elim
  | body => exact hbare.elim
  | respond => exact hbare.elim
  | sendFrame channel payload next ih =>
    exact List.forall_mem_cons.2 ⟨.inr ⟨channel, payload, rfl⟩, ih _ (hbare _) _⟩
  | look next ih => exact List.forall_mem_cons.2 ⟨.inl rfl, ih _ (hbare _) x⟩
  | start stream next ih => exact ih hbare x

theorem acts_sightings (h : Handler α) (x : Exchange) :
    Sighting.acts (h.sightings x) = h.acts x := by
  induction h generalizing x with
  | done value => rfl
  | header name value next ih => exact congrArg _ (ih _)
  | body content next ih => exact congrArg _ (ih _)
  | respond status reason next ih => exact congrArg _ (ih _ _)
  | sendFrame channel payload next ih => exact congrArg _ (ih _ _)
  | look next ih => exact ih _ _
  | start stream next ih => exact ih _

theorem shows_sightings (h : Handler α) (x : Exchange) : x.Shows (h.sightings x) := by
  induction h generalizing x with
  | done value => trivial
  | header name value next ih => exact ih _
  | body content next ih => exact ih _
  | respond status reason next ih => exact ih _ _
  | sendFrame channel payload next ih => exact ih _ _
  | look next ih => exact ⟨rfl, ih _ _⟩
  | start stream next ih => exact ih _

end Handler

/-! ### Sightings of a dispatch -/

namespace Controller

variable {γ : Type}

/-- The controller with a log of what its hooks do and see, in order. -/
def watched (c : Controller γ) : Controller (γ × List Sighting) where
  before r s := (c.before r s.1).watched s.2
  options r s := (c.options r s.1).watched s.2
  describe r s := (c.describe r s.1).watched s.2
  setup r s := (c.setup r s.1).watched s.2
  play r s := (c.play r s.1).watched s.2
  teardown r s := (c.teardown r s.1).watched s.2
  unknown r s := (c.unknown r s.1).watched s.2
  after outcome r s :=
    ⟨(c.after outcome r s.1).handler.watched s.2, (c.after outcome r s.1).bare.watched s.2⟩

theorem hook_watched (c : Controller γ) (m : Method) (r : Request) (s : γ)
    (log : List Sighting) :
    c.watched.hook m r (s, log) = (c.hook m r s).watched log := by
  cases m <;> rfl

/-- What the hooks ahead of the answer do and see. -/
def sightings (c : Controller γ) (r : Request) (s : γ) (x : Exchange) : List Sighting :=
  let (t, y) := (c.before r s).run x
  (c.before r s).sightings x ++ (c.hook r.method r t).sightings y

theorem acts_sightings (c : Controller γ) (r : Request) (s : γ) (x : Exchange) :
    Sighting.acts (c.sightings r s x) = c.hookActs r s x := by
  simp only [sightings, hookActs, Sighting.acts_append, Handler.acts_sightings]

theorem shows_sightings (c : Controller γ) (r : Request) (s : γ) (x : Exchange) :
    x.Shows (c.sightings r s x) := by
  rw [sightings, Exchange.shows_append, Handler.acts_sightings, ← Handler.run_eq_performAll]
  exact ⟨Handler.shows_sightings _ _, Handler.shows_sightings _ _⟩

/-- What the last hook does and sees. -/
def afterSightings (c : Controller γ) (r : Request) (s : γ) (x : Exchange) : List Sighting :=
  let (outcome, t, y) := c.settle r s x
  (c.after outcome r t).handler.sightings y

theorem acts_afterSightings (c : Controller γ) (r : Request) (s : γ) (x : Exchange) :
    Sighting.acts (c.afterSightings r s x) = c.afterActs r s x :=
  Handler.acts_sightings _ _

/-- Watching changes nothing. -/
theorem dispatch_watched (c : Controller γ) (r : Request) (s : γ) (log : List Sighting)
    (x : Exchange) :
    c.watched.dispatch r (s, log) x =
      let (outcome, t, y) := c.dispatch r s x
      (outcome, (t, log ++ c.sightings r s x ++ c.afterSightings r s x), y) := by
  have hbefore : (c.watched.before r (s, log)).run x =
      ((((c.before r s).run x).1, log ++ (c.before r s).sightings x), ((c.before r s).run x).2) :=
    Handler.run_watched (c.before r s) log x
  simp only [dispatch, settle, afterSightings, hbefore, hook_watched, Handler.run_watched]
  simp [watched, sightings, Handler.run_watched]

/-- Whatever the hooks of a dispatch do and whatever becomes of the writes: the first two hooks see
that something was answered exactly when a response was attempted ahead of the look. The last hook,
which can send frames and look, never sees that something was, although there is always a response
by then, of the hooks or in their place. -/
theorem hasResponded_until_taken (c : Controller γ) (r : Request) (s : γ) (peer : Endpoint)
    (cseq : UInt32) (link : Link) :
    let x : Exchange := { peer, cseq, link }
    let seen := c.sightings r s x
    let acts := Sighting.acts seen
    let last := c.afterSightings r s x
    let (outcome, t, y) := c.dispatch r s x
    c.watched.dispatch r (s, []) x = (outcome, (t, seen ++ last), y) ∧
    (∀ front view later, seen = front ++ .saw view :: later →
      view = { peer, cseq, hasResponded := (Sighting.acts front).any Act.isResponse }) ∧
    (∀ sighting ∈ last, sighting = .saw { peer, cseq, hasResponded := false } ∨
      ∃ channel payload, sighting = .did (.sendFrame channel payload)) ∧
    y = Exchange.performAll { x.performAll (acts ++ Act.fallback acts) with outcome := none }
      (Sighting.acts last) ∧
    (acts ++ Act.fallback acts).any Act.isResponse = true := by
  intro x seen acts last
  have hwatched := c.dispatch_watched r s [] x
  obtain ⟨-, hexchange⟩ := c.settle_eq_performAll r s (x := x) rfl
  have hacts : c.hookActs r s x = acts := (c.acts_sightings r s x).symm
  have hsettled : (c.settle r s x).2.2 =
      { x.performAll (acts ++ Act.fallback acts) with outcome := none } := by
    rw [← hacts]
    exact hexchange
  have hview : (c.settle r s x).2.2.view = { peer, cseq, hasResponded := false } := by
    have hall := x.view_performAll (acts ++ Act.fallback acts)
    rw [hsettled]
    simp only [Exchange.view, ExchangeView.mk.injEq] at hall ⊢
    exact ⟨hall.1, hall.2.1, rfl⟩
  have hdone : (c.dispatch r s x).2.2 = Exchange.performAll
      { x.performAll (acts ++ Act.fallback acts) with outcome := none } (Sighting.acts last) := by
    rw [c.acts_afterSightings, ← hsettled]
    exact Handler.run_eq_performAll _ _
  have hlast := (c.after (c.settle r s x).1 r (c.settle r s x).2.1).bare.saw_view
    (c.settle r s x).2.2
  rw [hview] at hlast
  refine ⟨hwatched, fun front view later hseen => ?_, hlast, hdone,
    Act.any_isResponse_append_fallback acts⟩
  have hshows := c.shows_sightings r s x
  rw [show c.sightings r s x = _ from hseen, Exchange.shows_append] at hshows
  rw [hshows.2.1, Exchange.view_performAll]
  rfl

/-- A hook that answers sees so, and the last hook sees that nothing was answered. -/
theorem unanswered_to_last_hook :
    let script : Script := fun
      | .options => [.responded, .respond 200 "OK", .responded]
      | _ => []
    let r : Request := { method := .options }
    let peer : Endpoint := { host := .v4 127 0 0 1, port := 9000 }
    let x : Exchange := { peer, cseq := 1, link := {} }
    (script.controller.watched.dispatch r ([], []) x).2.1.2 =
      [.saw { peer, cseq := 1, hasResponded := false }, .did (.respond 200 "OK"),
        .saw { peer, cseq := 1, hasResponded := true },
        .saw { peer, cseq := 1, hasResponded := false }] := by
  decide +kernel

end Controller

end RealTimeStreaming
