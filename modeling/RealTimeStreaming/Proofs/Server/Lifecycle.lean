import Mathlib.Data.List.Induction
import RealTimeStreaming.Proofs.Histories
import RealTimeStreaming.Server

/-! The life of a server as its owner can tell it from the answers to its calls. A server runs from
a start that succeeds to the next stop. The address it gives is that of the last start that
succeeded, and a stop does not take it back, so it is the address of a running server exactly as
long as the server runs. -/

namespace RealTimeStreaming

namespace Server

/-! ### Calls and answers -/

/-- A call on a server; `bound` is what comes of binding its address. -/
inductive Call where
  | start (bound : Except IoError Endpoint)
  | stop
  | isRunning
  | localAddress

inductive Answer where
  | started (result : Except RtspError Endpoint)
  | stopped
  | running (yes : Bool)
  | address (result : Except RtspError Endpoint)

def perform (s : Server) : Call → Answer × Server
  | .start bound => ((.started (s.start bound).1), (s.start bound).2)
  | .stop => (.stopped, s.stop)
  | .isRunning => (.running s.running, s)
  | .localAddress => (.address s.localAddress, s)

/-- Makes the calls in order. -/
def performAll (s : Server) : List Call → List Answer × Server
  | [] => ([], s)
  | call :: calls =>
    let (answer, t) := s.perform call
    let (answers, last) := t.performAll calls
    (answer :: answers, last)

@[simp] theorem performAll_nil (s : Server) : s.performAll [] = ([], s) := rfl

theorem performAll_snoc (s : Server) (calls : List Call) (call : Call) :
    s.performAll (calls ++ [call]) =
      ((s.performAll calls).1 ++ [((s.performAll calls).2.perform call).1],
        ((s.performAll calls).2.perform call).2) := by
  induction calls generalizing s with
  | nil => rfl
  | cons first calls ih => simp only [List.cons_append, performAll, ih]

/-- The answer of a start that bound the server to the address. -/
def Answer.Binds (answer : Answer) (endpoint : Endpoint) : Prop :=
  answer = .started (.ok endpoint)

/-- The address was bound by a start, and no stop was answered since. -/
def OnSince (answers : List Answer) (endpoint : Endpoint) : Prop :=
  Since (·.Binds endpoint) (· = .stopped) answers

/-- The address was bound by a start, and no other start succeeded since. -/
def LastBound (answers : List Answer) (endpoint : Endpoint) : Prop :=
  Since (·.Binds endpoint) (fun answer => ∃ other, answer.Binds other) answers

section Answers

variable {answers : List Answer} {answer : Answer} {endpoint : Endpoint}

theorem onSince_snoc :
    OnSince (answers ++ [answer]) endpoint ↔
      answer.Binds endpoint ∨ OnSince answers endpoint ∧ answer ≠ .stopped :=
  since_snoc

theorem lastBound_snoc :
    LastBound (answers ++ [answer]) endpoint ↔
      answer.Binds endpoint ∨ LastBound answers endpoint ∧ ¬ ∃ other, answer.Binds other :=
  since_snoc

end Answers

/-! ### One call -/

variable {s : Server} {answers : List Answer}

/-- What one call can do. -/
theorem perform_cases (s : Server) (call : Call) :
    (∃ endpoint, s.running = false ∧
      s.perform call =
        (.started (.ok endpoint), { s with running := true, boundTo := some endpoint })) ∨
    s.perform call = (.stopped, { s with running := false }) ∨
    ∃ answer, s.perform call = (answer, s) ∧ answer ≠ .stopped ∧
      ∀ endpoint, ¬ answer.Binds endpoint := by
  cases call with
  | start bound =>
    cases hrunning : s.running with
    | true =>
      exact .inr (.inr ⟨.started (.error .alreadyRunning), by simp [perform, start, hrunning],
        nofun, nofun⟩)
    | false =>
      cases bound with
      | error e =>
        exact .inr (.inr ⟨.started (.error (.io e)), by simp [perform, start, hrunning],
          nofun, nofun⟩)
      | ok endpoint =>
        exact .inl ⟨endpoint, rfl, by simp [perform, start, hrunning]⟩
  | stop => exact .inr (.inl rfl)
  | isRunning => exact .inr (.inr ⟨_, rfl, nofun, nofun⟩)
  | localAddress => exact .inr (.inr ⟨_, rfl, nofun, nofun⟩)

/-- A server is as its answers tell. -/
structure Reflects (s : Server) (answers : List Answer) : Prop where
  bound : ∀ endpoint, s.boundTo = some endpoint ↔ LastBound answers endpoint
  on : ∀ endpoint, s.running = true ∧ s.boundTo = some endpoint ↔ OnSince answers endpoint
  /-- A server that runs has an address. -/
  address : s.running = true → s.boundTo.isSome = true

theorem Reflects.perform (h : s.Reflects answers) (call : Call) :
    (s.perform call).2.Reflects (answers ++ [(s.perform call).1]) := by
  obtain ⟨endpoint, hstopped, hcall⟩ | hcall | ⟨answer, hcall, hstop, hbinds⟩ :=
    s.perform_cases call
  · have hoff (other : Endpoint) : ¬ OnSince answers other := fun hon => by
      rw [← h.on, hstopped] at hon
      cases hon.1
    rw [hcall]
    constructor
    case bound => intro other; simp [lastBound_snoc, Answer.Binds]
    case on => intro other; simp [onSince_snoc, Answer.Binds, hoff other]
    case address => exact fun _ => rfl
  · rw [hcall]
    constructor
    case bound => intro endpoint; simp [lastBound_snoc, Answer.Binds, h.bound]
    case on => intro endpoint; simp [onSince_snoc, Answer.Binds]
    case address => exact nofun
  · rw [hcall]
    constructor
    case bound => intro endpoint; simp [lastBound_snoc, hbinds, h.bound]
    case on => intro endpoint; simp [onSince_snoc, hbinds, hstop, h.on]
    case address => exact h.address

namespace Reflects

theorem running_iff (h : s.Reflects answers) :
    s.running = true ↔ ∃ endpoint, OnSince answers endpoint := by
  constructor
  · intro hrunning
    obtain ⟨endpoint, hbound⟩ := Option.isSome_iff_exists.1 (h.address hrunning)
    exact ⟨endpoint, (h.on endpoint).1 ⟨hrunning, hbound⟩⟩
  · rintro ⟨endpoint, hon⟩
    exact ((h.on endpoint).2 hon).1

theorem localAddress_eq_ok_iff (h : s.Reflects answers) {endpoint : Endpoint} :
    s.localAddress = .ok endpoint ↔ LastBound answers endpoint := by
  rw [← h.bound, localAddress]
  cases s.boundTo <;> simp

theorem localAddress_eq_error_iff (h : s.Reflects answers) :
    s.localAddress = .error .notStarted ↔ ∀ endpoint, ¬ LastBound answers endpoint := by
  simp only [← h.bound, localAddress]
  cases s.boundTo <;> simp

/-- The address that is given is that of a running server: it runs, or was never started. -/
theorem address_of_running_iff (h : s.Reflects answers) :
    (∀ endpoint, s.localAddress = .ok endpoint ↔ OnSince answers endpoint) ↔
      s.running = true ∨ ∀ endpoint, ¬ LastBound answers endpoint := by
  simp only [h.localAddress_eq_ok_iff, ← h.on, ← h.bound]
  cases s.running with
  | true => simp
  | false => simp

end Reflects

/-! ### Any calls -/

theorem start_refused_iff (s : Server) (bound : Except IoError Endpoint) :
    (s.start bound).1 = .error .alreadyRunning ↔ s.running = true := by
  unfold start
  split
  · simp_all
  · cases bound <;> simp_all

/-- A start that does not succeed leaves the server as it is, and no other. -/
theorem start_eq_self_iff (s : Server) (bound : Except IoError Endpoint) :
    (s.start bound).2 = s ↔ s.running = true ∨ bound.isOk = false := by
  cases hrunning : s.running with
  | true => simp [start, hrunning]
  | false =>
    cases bound with
    | error e => simp [start, hrunning, Except.isOk, Except.toBool]
    | ok endpoint =>
      have hne : (s.start (.ok endpoint)).2 ≠ s := fun h => by
        have hon := congrArg running h
        simp [start, hrunning] at hon
      simp [hne, Except.isOk, Except.toBool]

theorem reflects_performAll (bindAddress : String) (config : ServerConfig) (calls : List Call) :
    let fresh : Server := { bindAddress, config }
    (fresh.performAll calls).2.Reflects (fresh.performAll calls).1 := by
  intro fresh
  induction calls using List.reverseRecOn with
  | nil =>
    constructor
    case bound => intro endpoint; simp [fresh, LastBound, not_since_nil]
    case on => intro endpoint; simp [fresh, OnSince, not_since_nil]
    case address => exact nofun
  | append_singleton calls call ih =>
    rw [performAll_snoc]
    exact ih.perform call

/-- Whatever its owner calls, a server runs from a start that succeeds to the next stop. A start of
a running server is refused, and it changes nothing, as a start does that cannot bind. The address
that the server gives is that of the last start that succeeded. A stop does not take it back, so it
is given as long as the server runs, and no longer, if and only if the server runs or was never
started. -/
theorem localAddress_outlives_stop (bindAddress : String) (config : ServerConfig)
    (calls : List Call) :
    let fresh : Server := { bindAddress, config }
    let (answers, s) := fresh.performAll calls
    (s.running = true ↔ ∃ endpoint, OnSince answers endpoint) ∧
    (∀ bound, (s.start bound).1 = .error .alreadyRunning ↔ s.running = true) ∧
    (∀ bound, (s.start bound).2 = s ↔ s.running = true ∨ bound.isOk = false) ∧
    (∀ endpoint, s.localAddress = .ok endpoint ↔ LastBound answers endpoint) ∧
    (s.localAddress = .error .notStarted ↔ ∀ endpoint, ¬ LastBound answers endpoint) ∧
    ((∀ endpoint, s.localAddress = .ok endpoint ↔ OnSince answers endpoint) ↔
      s.running = true ∨ ∀ endpoint, ¬ LastBound answers endpoint) := by
  intro fresh
  have h : (fresh.performAll calls).2.Reflects (fresh.performAll calls).1 :=
    reflects_performAll bindAddress config calls
  exact ⟨h.running_iff, start_refused_iff _, start_eq_self_iff _,
    fun _ => h.localAddress_eq_ok_iff, h.localAddress_eq_error_iff, h.address_of_running_iff⟩

/-- A server that was stopped gives the address that it had. -/
theorem localAddress_of_stopped :
    let fresh : Server := { bindAddress := "127.0.0.1:0" }
    let endpoint : Endpoint := { host := .v4 127 0 0 1, port := 40000 }
    fresh.performAll [.start (.ok endpoint), .stop, .isRunning, .localAddress] =
      ([.started (.ok endpoint), .stopped, .running false, .address (.ok endpoint)],
        { fresh with boundTo := some endpoint }) :=
  rfl

end Server

end RealTimeStreaming
