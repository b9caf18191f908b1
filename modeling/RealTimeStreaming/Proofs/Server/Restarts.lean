import Mathlib.Data.List.Induction
import RealTimeStreaming.Proofs.Histories
import RealTimeStreaming.Service

/-! Listeners and restarts. A listener ends when it takes a turn while the server is stopped. All
the listeners of a server ask it the one question whether it runs, so a stop is missed by a listener
that takes no turn until the server runs again: it accepts connections for as long as the server
then runs, beside the newest listener and on an address that the server no longer gives. -/

namespace RealTimeStreaming

namespace Service

/-! ### Listeners -/

/-- A client that waits for the listener is accepted in its next turn. -/
def Accepting (s : Service) (i : Nat) : Prop :=
  ∀ client, (s.poll i (some client)).accepted = s.accepted ++ [(i, client)]

def Ended (s : Service) (i : Nat) : Prop :=
  ∃ listener, s.listeners[i]? = some listener ∧ listener.ended = true

/-- The newest listener of a running server has not ended, and it listens where the server was last
bound. -/
def Served (s : Service) : Prop :=
  s.server.running = true →
    ∃ older endpoint,
      s.listeners = older ++ [{ endpoint := endpoint }] ∧ s.server.boundTo = some endpoint

/-- The event is a turn in which the listener sees that the server is stopped. -/
def FindsStopped (s : Service) (i : Nat) (event : Event) : Prop :=
  (∃ waiting, event = .poll i waiting) ∧ i < s.listeners.length ∧ s.server.running = false

/-- One of the events was a turn in which the listener saw that the server was stopped. -/
def FoundStopped (s : Service) (i : Nat) (events : List Event) : Prop :=
  Happened (fun front event => (s.run front).FindsStopped i event) events

theorem run_append (s : Service) (front later : List Event) :
    s.run (front ++ later) = (s.run front).run later :=
  List.foldl_append

theorem run_snoc (s : Service) (events : List Event) (event : Event) :
    s.run (events ++ [event]) = (s.run events).step event := by
  rw [run_append, run_cons, run_nil]

variable {s t : Service} {i : Nat} {event : Event}

theorem accepting_iff :
    s.Accepting i ↔ s.server.running = true ∧ i < s.listeners.length ∧ ¬ s.Ended i := by
  -- Some client has to wait, or nothing tells the listeners apart.
  have hclient : Nonempty Endpoint := ⟨{ host := .v4 127 0 0 1, port := 0 }⟩
  by_cases hi : i < s.listeners.length
  · cases hended : s.listeners[i].ended <;> cases hrunning : s.server.running <;>
      simp [Accepting, Ended, poll, hi, hended, hrunning]
  · simp [Accepting, poll, hi]

/-! ### One event -/

/-- What one event can do. -/
inductive Steps (s : Service) : Event → Service → Prop
  | started (endpoint : Endpoint) : s.server.running = false →
      Steps s (.start (.ok endpoint))
        { s with
          server := { s.server with running := true, boundTo := some endpoint }
          listeners := s.listeners ++ [{ endpoint }] }
  | refused (bound : Except IoError Endpoint) : Steps s (.start bound) s
  | stopped : Steps s .stop { s with server := s.server.stop }
  | accepted (i : Nat) (client : Endpoint) : s.Accepting i →
      Steps s (.poll i (some client)) { s with accepted := s.accepted ++ [(i, client)] }
  | ended (i : Nat) (waiting : Option Endpoint) (listener : Listener) :
      s.listeners[i]? = some listener → s.server.running = false →
      Steps s (.poll i waiting)
        { s with listeners := s.listeners.set i { listener with ended := true } }
  | idle (i : Nat) (waiting : Option Endpoint) :
      s.server.running = true ∨ s.listeners.length ≤ i → waiting = none ∨ ¬ s.Accepting i →
      Steps s (.poll i waiting) s

theorem steps_poll (s : Service) (i : Nat) (waiting : Option Endpoint) :
    s.Steps (.poll i waiting) (s.poll i waiting) := by
  unfold poll
  split
  next hlistener =>
    have hi := List.getElem?_eq_none_iff.1 hlistener
    exact .idle i waiting (.inr hi) (.inr fun h => absurd (accepting_iff.1 h).2.1 (by omega))
  next listener hlistener =>
    split
    next hended =>
      cases hrunning : s.server.running with
      | true =>
        exact .idle i waiting (.inl hrunning) (.inr fun h =>
          (accepting_iff.1 h).2.2 ⟨listener, hlistener, hended⟩)
      | false =>
        -- A listener that has ended ends once more.
        have hset : s.listeners.set i { listener with ended := true } = s.listeners := by
          obtain ⟨hi, rfl⟩ := List.getElem?_eq_some_iff.1 hlistener
          rw [← hended]
          exact List.set_getElem_self hi
        simpa [hset] using Steps.ended i waiting listener hlistener hrunning
    next hended =>
      split
      next hrunning =>
        split
        next client =>
          refine .accepted i client (accepting_iff.2 ⟨hrunning, ?_, ?_⟩)
          · exact (List.getElem?_eq_some_iff.1 hlistener).1
          · rintro ⟨other, hother, hyes⟩
            simp_all
        next => exact .idle i none (.inl hrunning) (.inl rfl)
      next hrunning => exact .ended i waiting listener hlistener (by simpa using hrunning)

theorem steps (s : Service) (event : Event) : s.Steps event (s.step event) := by
  cases event with
  | start bound =>
    cases hrunning : s.server.running with
    | true => simpa [step, start, Server.start, hrunning] using Steps.refused bound
    | false =>
      cases bound with
      | error e => simpa [step, start, Server.start, hrunning] using Steps.refused (.error e)
      | ok endpoint =>
        simpa [step, start, Server.start, hrunning] using Steps.started endpoint hrunning
  | stop => exact .stopped
  | poll i waiting => exact s.steps_poll i waiting

namespace Steps

theorem ended_iff (h : s.Steps event t) : t.Ended i ↔ s.Ended i ∨ s.FindsStopped i event := by
  cases h with
  | started endpoint hrunning =>
    have hnot : ¬ s.FindsStopped i (.start (.ok endpoint)) := by simp [FindsStopped]
    rw [or_iff_left hnot, Ended, Ended]
    rcases Nat.lt_trichotomy i s.listeners.length with hi | hi | hi
    · rw [List.getElem?_append_left hi]
    · simp [hi]
    · rw [List.getElem?_eq_none (Nat.le_of_lt hi), List.getElem?_eq_none]
      rw [List.length_append, List.length_singleton]
      exact hi
  | refused bound => simp [FindsStopped]
  | stopped => simp [FindsStopped, Ended]
  | accepted j client hj => simp [FindsStopped, Ended, (accepting_iff.1 hj).1]
  | ended j waiting listener hlistener hrunning =>
    have hj : j < s.listeners.length := (List.getElem?_eq_some_iff.1 hlistener).1
    by_cases hij : j = i
    · subst hij
      simp [FindsStopped, Ended, hj, hrunning]
    · simp [FindsStopped, Ended, hij]
  | idle j waiting hturn =>
    have hnot : ¬ s.FindsStopped i (.poll j waiting) := by
      rintro ⟨⟨other, hpoll⟩, hi, hrunning⟩
      cases hpoll
      rcases hturn with hon | hgone
      · simp [hon] at hrunning
      · omega
    simp [hnot]

/-- A connection is accepted in a turn of a listener that accepts, and the client is the one that
waits. -/
theorem accepted_eq (h : s.Steps event t) :
    ∃ entries, t.accepted = s.accepted ++ entries ∧
      ∀ i client, (i, client) ∈ entries ↔ event = .poll i (some client) ∧ s.Accepting i := by
  cases h with
  | accepted j other hj =>
    refine ⟨[(j, other)], rfl, fun i client => ?_⟩
    constructor
    · intro hmem
      obtain ⟨rfl, rfl⟩ : i = j ∧ client = other := by simpa using hmem
      exact ⟨rfl, hj⟩
    · rintro ⟨hpoll, -⟩
      cases hpoll
      exact List.mem_singleton_self _
  | idle j waiting hturn hnot =>
    refine ⟨[], by simp, fun i client => ?_⟩
    constructor
    · exact nofun
    · rintro ⟨hpoll, hi⟩
      cases hpoll
      simp [hi] at hnot
  | ended j waiting listener hlistener hrunning =>
    refine ⟨[], by simp, fun i client => ?_⟩
    simp [accepting_iff, hrunning]
  | _ => exact ⟨[], by simp, by simp⟩

theorem served (h : s.Steps event t) (hs : s.Served) : t.Served := by
  cases h with
  | started endpoint hrunning => exact fun _ => ⟨s.listeners, endpoint, rfl, rfl⟩
  | stopped => exact nofun
  | ended j waiting listener hlistener hrunning => simp [Served, hrunning]
  | _ => exact hs

end Steps

/-! ### Any events -/

theorem ended_run_iff (s : Service) (i : Nat) (events : List Event) :
    (s.run events).Ended i ↔ s.Ended i ∨ s.FoundStopped i events := by
  induction events using List.reverseRecOn with
  | nil => simp [FoundStopped, not_happened_nil]
  | append_singleton events event ih =>
    rw [run_snoc, ((s.run events).steps event).ended_iff, ih, or_assoc]
    simp only [FoundStopped, happened_snoc]

theorem accepted_run (s : Service) (events : List Event) :
    ∃ entries, (s.run events).accepted = s.accepted ++ entries ∧
      ∀ i client, (i, client) ∈ entries ↔
        Happened (fun front event => event = .poll i (some client) ∧ (s.run front).Accepting i)
          events := by
  induction events using List.reverseRecOn with
  | nil => exact ⟨[], by simp, by simp [not_happened_nil]⟩
  | append_singleton events event ih =>
    obtain ⟨entries, hentries, hmem⟩ := ih
    obtain ⟨new, hnew, hmemNew⟩ := ((s.run events).steps event).accepted_eq
    refine ⟨entries ++ new, ?_, fun i client => ?_⟩
    · rw [run_snoc, hnew, hentries, List.append_assoc]
    · rw [List.mem_append, hmem, hmemNew, happened_snoc]

theorem served_run (hs : s.Served) (events : List Event) : (s.run events).Served := by
  induction events using List.reverseRecOn with
  | nil => exact hs
  | append_singleton events event ih =>
    rw [run_snoc]
    exact ((s.run events).steps event).served ih

/-- The newest listener accepts, on the address that the server gives, exactly as long as the server
runs. -/
theorem Served.running_iff (h : s.Served) :
    s.server.running = true ↔
      ∃ older newest, s.listeners = older ++ [newest] ∧ s.Accepting older.length ∧
        s.server.localAddress = .ok newest.endpoint := by
  constructor
  · intro hrunning
    obtain ⟨older, endpoint, hlisteners, hbound⟩ := h hrunning
    refine ⟨older, { endpoint }, hlisteners, accepting_iff.2 ⟨hrunning, ?_, ?_⟩, ?_⟩
    · simp [hlisteners]
    · simp [Ended, hlisteners]
    · rw [Server.localAddress, hbound]
  · rintro ⟨older, newest, -, haccepting, -⟩
    exact (accepting_iff.1 haccepting).1

/-- No two listeners accept if and only if none does beside the newest. -/
theorem Served.accepting_unique_iff (h : s.Served) :
    (∀ i j, s.Accepting i → s.Accepting j → i = j) ↔
      (s.server.running = true → ∀ i, i + 1 < s.listeners.length → s.Ended i) := by
  constructor
  · intro hunique hrunning i hi
    obtain ⟨older, newest, hlisteners, hnewest, -⟩ := h.running_iff.1 hrunning
    by_contra hended
    have haccepting : s.Accepting i := accepting_iff.2 ⟨hrunning, by omega, hended⟩
    have hlast : i = older.length := hunique i older.length haccepting hnewest
    simp [hlisteners, hlast] at hi
  · intro holder i j haccepting haccepting'
    obtain ⟨hrunning, hi, hended⟩ := accepting_iff.1 haccepting
    obtain ⟨-, hj, hended'⟩ := accepting_iff.1 haccepting'
    have hi' : ¬ i + 1 < s.listeners.length := fun h => hended (holder hrunning i h)
    have hj' : ¬ j + 1 < s.listeners.length := fun h => hended' (holder hrunning j h)
    omega

/-- Whatever a server that was never started goes through: a listener accepts exactly as long as the
server runs, unless it took a turn while the server was stopped. So what is accepted behind a stop
is accepted by the listeners started since, and by those from before that took no turn until the
server ran again. The newest listener accepts whenever the server runs, and it is the one on the
address that the server gives. It is alone if and only if all the others took a turn while the
server was stopped. -/
theorem accepts_until_found_stopped (bindAddress : String) (config : ServerConfig) :
    let fresh : Service := { server := { bindAddress, config } }
    (∀ before after i client,
      let stopped := fresh.run (before ++ [.stop])
      (i, client) ∈ (stopped.run after).accepted.drop stopped.accepted.length ↔
        ∃ front later, after = front ++ .poll i (some client) :: later ∧
          (stopped.run front).server.running = true ∧
          i < (stopped.run front).listeners.length ∧
          ¬ fresh.FoundStopped i (before ++ .stop :: front)) ∧
    ∀ events,
      let s := fresh.run events
      (∀ i, s.Accepting i ↔
        s.server.running = true ∧ i < s.listeners.length ∧ ¬ fresh.FoundStopped i events) ∧
      (s.server.running = true ↔
        ∃ older newest, s.listeners = older ++ [newest] ∧ s.Accepting older.length ∧
          s.server.localAddress = .ok newest.endpoint) ∧
      ((∀ i j, s.Accepting i → s.Accepting j → i = j) ↔
        (s.server.running = true →
          ∀ i, i + 1 < s.listeners.length → fresh.FoundStopped i events)) := by
  intro fresh
  have hended (events : List Event) (i : Nat) :
      (fresh.run events).Ended i ↔ fresh.FoundStopped i events := by
    rw [ended_run_iff, or_iff_right]
    simp [fresh, Ended]
  have hserved (events : List Event) : (fresh.run events).Served := by
    refine served_run ?_ events
    exact nofun
  refine ⟨fun before after i client => ?_, fun events => ⟨fun i => ?_, ?_, ?_⟩⟩
  · intro stopped
    obtain ⟨entries, hentries, hmem⟩ := stopped.accepted_run after
    rw [hentries, List.drop_left, hmem]
    simp only [stopped, Happened, accepting_iff, ← run_append, hended, List.append_assoc,
      List.singleton_append]
    constructor
    · rintro ⟨front, event, later, hafter, rfl, haccepting⟩
      exact ⟨front, later, hafter, haccepting⟩
    · rintro ⟨front, later, hafter, haccepting⟩
      exact ⟨front, _, later, hafter, rfl, haccepting⟩
  · rw [accepting_iff, hended]
  · exact (hserved events).running_iff
  · simp only [(hserved events).accepting_unique_iff, hended]

/-- A listener that took no turn between a stop and the next start accepts a client behind both, as
the listener of that start does. -/
theorem accepted_of_missed_stop :
    let fresh : Service := { server := { bindAddress := "127.0.0.1:0" } }
    let first : Endpoint := { host := .v4 127 0 0 1, port := 40000 }
    let second : Endpoint := { host := .v4 127 0 0 1, port := 40001 }
    let client : Endpoint := { host := .v4 127 0 0 1, port := 50000 }
    let stopped := fresh.run [.start (.ok first), .stop]
    let s := stopped.run [.start (.ok second), .poll 0 (some client), .poll 1 (some client)]
    stopped.listeners = [{ endpoint := first }] ∧
      s.accepted = [(0, client), (1, client)] ∧ s.server.localAddress = .ok second :=
  ⟨rfl, rfl, rfl⟩

end Service

end RealTimeStreaming
