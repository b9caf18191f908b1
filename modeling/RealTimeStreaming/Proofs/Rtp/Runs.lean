import Mathlib.Algebra.GroupWithZero.Nat
import RealTimeStreaming.Proofs.Rtp.Codec
import RealTimeStreaming.Proofs.Wire.Delivered
import RealTimeStreaming.Rtp.Sender

/-! Runs of sends over a link that may fail any of them. A send that succeeds puts one packet
on the wire and takes one sequence number; a send that fails takes none. So the packets that
were delivered are numbered without a gap, however the failures fall. -/

namespace RealTimeStreaming.Rtp

/-! ### Histories -/

/-- One call of a run: what it was asked, what it answered, and the state around it. -/
structure Call (α σ : Type) where
  item : α
  result : Except RtspError Nat
  before : σ
  after : σ

section

variable {α σ : Type} {send : α → σ → Except RtspError Nat × σ} {item : α} {items more : List α}
  {state next : σ}

/-- The calls of a run, each on the state that the one before it left, failed or not. -/
def history (send : α → σ → Except RtspError Nat × σ) : List α → σ → List (Call α σ)
  | [], _ => []
  | item :: items, state =>
    { item, result := (send item state).1, before := state, after := (send item state).2 } ::
      history send items (send item state).2

/-- The state that a run leaves. -/
def leaves (send : α → σ → Except RtspError Nat × σ) (items : List α) (state : σ) : σ :=
  items.foldl (fun state item => (send item state).2) state

@[simp] theorem leaves_nil : leaves send [] state = state := rfl

@[simp] theorem leaves_cons :
    leaves send (item :: items) state = leaves send items (send item state).2 := rfl

theorem map_item_history : (history send items state).map (·.item) = items := by
  induction items generalizing state with
  | nil => rfl
  | cons item items ih => rw [history, List.map_cons, ih]

theorem length_history : (history send items state).length = items.length := by
  rw [← List.length_map, map_item_history]

theorem history_append :
    history send (items ++ more) state =
      history send items state ++ history send more (leaves send items state) := by
  induction items generalizing state with
  | nil => rfl
  | cons item items ih => rw [List.cons_append, history, ih, history, List.cons_append, leaves_cons]

theorem leaves_append :
    leaves send (items ++ more) state = leaves send more (leaves send items state) :=
  List.foldl_append

/-- What every call keeps holds around all calls of a run. -/
theorem invariant_of_mem_history (holds : σ → Prop)
    (hsend : ∀ item state, holds state → holds (send item state).2) (h : holds state) :
    ∀ call ∈ history send items state, holds call.before ∧
      call.result = (send call.item call.before).1 ∧
      call.after = (send call.item call.before).2 := by
  induction items generalizing state with
  | nil => simp [history]
  | cons item items ih =>
    rw [history, List.forall_mem_cons]
    exact ⟨⟨h, rfl, rfl⟩, ih (hsend item state h)⟩

theorem leaves_invariant (holds : σ → Prop)
    (hsend : ∀ item state, holds state → holds (send item state).2) (h : holds state) :
    holds (leaves send items state) := by
  induction items generalizing state with
  | nil => exact h
  | cons item items ih => exact ih (hsend item state h)

/-! ### Sends in order -/

/-- One more send behind sends of a total count, unless one of these failed. -/
def sendNext (send : α → σ → Except RtspError Nat × σ) :
    Except RtspError Nat × σ → α → Except RtspError Nat × σ
  | (.error e, state), _ => (.error e, state)
  | (.ok sum, state), item =>
    match send item state with
    | (.ok sent, state) => (.ok (sum + sent), state)
    | (.error e, state) => (.error e, state)

theorem sendEach_eq_foldl :
    sendEach send items state = items.foldl (sendNext send) (.ok 0, state) := by
  unfold sendEach
  congr 1
  funext sofar item
  obtain ⟨total, state⟩ := sofar
  cases total with
  | error e => rfl
  | ok sum => rfl

theorem foldl_sendNext_error (e : RtspError) :
    items.foldl (sendNext send) (.error e, state) = (.error e, state) := by
  induction items with
  | nil => rfl
  | cons item items ih => exact ih

theorem foldl_sendNext_ok (sum : Nat) :
    items.foldl (sendNext send) (.ok sum, state) =
      ((sendEach send items state).1.map (sum + ·), (sendEach send items state).2) := by
  rw [sendEach_eq_foldl]
  induction items generalizing sum state with
  | nil => rfl
  | cons item items ih =>
    simp only [List.foldl_cons, sendNext]
    cases hs : send item state with
    | mk result next =>
      cases result with
      | error e =>
        rw [foldl_sendNext_error]
        rfl
      | ok sent =>
        simp only
        rw [ih (sum + sent), ih (0 + sent)]
        cases (items.foldl (sendNext send) (.ok 0, next)).1 with
        | error e => rfl
        | ok rest =>
          simp only [Except.map, Prod.mk.injEq, Except.ok.injEq, and_true]
          omega

theorem sendEach_cons_of_ok {n : Nat} (h : send item state = (.ok n, next)) :
    sendEach send (item :: items) state =
      ((sendEach send items next).1.map (n + ·), (sendEach send items next).2) := by
  rw [sendEach_eq_foldl, List.foldl_cons, sendNext, h]
  simp only [Nat.zero_add]
  exact foldl_sendNext_ok n

theorem sendEach_cons_of_error {e : RtspError} (h : send item state = (.error e, next)) :
    sendEach send (item :: items) state = (.error e, next) := by
  rw [sendEach_eq_foldl, List.foldl_cons, sendNext, h]
  exact foldl_sendNext_error e

theorem sendEach_singleton : sendEach send [item] state = send item state := by
  rcases hs : send item state with ⟨⟨e⟩ | ⟨n⟩, next⟩
  · exact sendEach_cons_of_error hs
  · exact sendEach_cons_of_ok hs

/-- Two ways to send are the same in order if they are where the sends may lead. -/
theorem sendEach_congr {send' : α → σ → Except RtspError Nat × σ} (holds : σ → Prop)
    (hsame : ∀ item ∈ items, ∀ state, holds state → send item state = send' item state)
    (hkeeps : ∀ item state, holds state → holds (send' item state).2) (h : holds state) :
    sendEach send items state = sendEach send' items state := by
  induction items generalizing state with
  | nil => rfl
  | cons item items ih =>
    rw [List.forall_mem_cons] at hsame
    have hnext := hkeeps item state h
    have heq := hsame.1 state h
    rcases hs : send' item state with ⟨⟨e⟩ | ⟨n⟩, next⟩
    · rw [sendEach_cons_of_error hs, sendEach_cons_of_error (heq.trans hs)]
    · rw [hs] at hnext
      rw [sendEach_cons_of_ok hs, sendEach_cons_of_ok (heq.trans hs), ih hsame.2 hnext]

/-- Sends that all succeed are one that succeeds and others that do. -/
theorem of_sendEach_cons {n : Nat} {after : σ}
    (h : sendEach send (item :: items) state = (.ok n, after)) :
    ∃ first others next, send item state = (.ok first, next) ∧
      sendEach send items next = (.ok others, after) ∧ n = first + others := by
  rcases hs : send item state with ⟨result, next⟩
  cases result with
  | error e =>
    rw [sendEach_cons_of_error hs] at h
    cases h
  | ok first =>
    rw [sendEach_cons_of_ok hs] at h
    rcases hr : sendEach send items next with ⟨others, last⟩
    rw [hr] at h
    cases others with
    | error e => cases h
    | ok others =>
      cases h
      exact ⟨first, others, next, rfl, hr, rfl⟩

/-- Sends that all succeed are a run whose counts add up. -/
theorem history_of_sendEach {n : Nat} {after : σ}
    (h : sendEach send items state = (.ok n, after)) :
    ∃ counts : List Nat, (history send items state).map (·.result) = counts.map .ok ∧
      counts.sum = n ∧ leaves send items state = after := by
  induction items generalizing state n with
  | nil =>
    cases h
    exact ⟨[], rfl, rfl, rfl⟩
  | cons item items ih =>
    obtain ⟨first, others, next, hs, hrest, rfl⟩ := of_sendEach_cons h
    obtain ⟨counts, hresults, rfl, hleaves⟩ := ih hrest
    refine ⟨first :: counts, ?_, List.sum_cons, ?_⟩
    · rw [history, List.map_cons, hs, hresults, List.map_cons]
    · rw [leaves_cons, hs, hleaves]

theorem sendEach_append_of_ok {n : Nat} (h : sendEach send items state = (.ok n, next)) :
    sendEach send (items ++ more) state =
      ((sendEach send more next).1.map (n + ·), (sendEach send more next).2) := by
  rw [sendEach_eq_foldl] at h
  rw [sendEach_eq_foldl, List.foldl_append, h, foldl_sendNext_ok]

theorem sendEach_append_of_error {e : RtspError}
    (h : sendEach send items state = (.error e, next)) :
    sendEach send (items ++ more) state = (.error e, next) := by
  rw [sendEach_eq_foldl] at h
  rw [sendEach_eq_foldl, List.foldl_append, h, foldl_sendNext_error]

/-- Groups of items sent in order, and within each group the items, are the items of all groups
sent in order. -/
theorem sendEach_flatMap {β : Type} (items : β → List α) (groups : List β) (state : σ) :
    sendEach (fun group => sendEach send (items group)) groups state =
      sendEach send (groups.flatMap items) state := by
  let sendGroup := fun group => sendEach send (items group)
  change sendEach sendGroup groups state = _
  induction groups generalizing state with
  | nil => rfl
  | cons group groups ih =>
    rw [List.flatMap_cons]
    rcases hs : sendGroup group state with ⟨⟨e⟩ | ⟨n⟩, next⟩
    · rw [sendEach_cons_of_error hs, sendEach_append_of_error hs]
    · rw [sendEach_cons_of_ok hs, sendEach_append_of_ok hs, ih]

/-- Sends succeed in order if each of them succeeds where the ones before it may lead. -/
theorem sendEach_of_invariant (holds : σ → Prop)
    (hsend : ∀ item ∈ items, ∀ state, holds state →
      ∃ n next, send item state = (.ok n, next) ∧ holds next) (h : holds state) :
    ∃ n after, sendEach send items state = (.ok n, after) ∧ holds after := by
  induction items generalizing state with
  | nil => exact ⟨0, state, rfl, h⟩
  | cons item items ih =>
    rw [List.forall_mem_cons] at hsend
    obtain ⟨first, next, hs, hnext⟩ := hsend.1 state h
    obtain ⟨others, after, hrest, hafter⟩ := ih hsend.2 hnext
    refine ⟨first + others, after, ?_, hafter⟩
    rw [sendEach_cons_of_ok hs, hrest]
    rfl

/-- The items that sends in order come to: all before the first that fails, and that one. -/
def attempted (send : α → σ → Except RtspError Nat × σ) : List α → σ → List α
  | [], _ => []
  | item :: items, state =>
    match send item state with
    | (.ok _, next) => item :: attempted send items next
    | (.error _, _) => [item]

/-- Sends in order do to the state what a run over the items that they come to does. -/
theorem sendEach_eq_leaves :
    (sendEach send items state).2 = leaves send (attempted send items state) state := by
  induction items generalizing state with
  | nil => rfl
  | cons item items ih =>
    rcases hs : send item state with ⟨⟨e⟩ | ⟨n⟩, next⟩
    · rw [sendEach_cons_of_error hs]
      simp only [attempted, hs, leaves_cons, leaves_nil]
    · rw [sendEach_cons_of_ok hs]
      simp only [attempted, hs, leaves_cons]
      exact ih

/-- If all succeed, then each of them was attempted and succeeded. -/
theorem attempted_of_isOk (h : (sendEach send items state).1.isOk = true) :
    attempted send items state = items ∧
      ∀ call ∈ history send items state, call.result.isOk = true := by
  induction items generalizing state with
  | nil => simp [attempted, history]
  | cons item items ih =>
    rcases hs : send item state with ⟨⟨e⟩ | ⟨n⟩, next⟩
    · rw [sendEach_cons_of_error hs] at h
      cases h
    · rw [sendEach_cons_of_ok hs] at h
      have hrest : (sendEach send items next).1.isOk = true := by
        cases hr : (sendEach send items next).1 with
        | error e =>
          rw [hr] at h
          cases h
        | ok others => rfl
      obtain ⟨hall, hcalls⟩ := ih hrest
      simp only [attempted, history, hs, hall, List.forall_mem_cons]
      exact ⟨trivial, rfl, hcalls⟩

/-! ### The calls that sends in order make -/

/-- The calls that sends in order come to. -/
def made (send : α → σ → Except RtspError Nat × σ) (items : List α) (state : σ) :
    List (Call α σ) :=
  history send (attempted send items state) state

/-- The items of the calls that succeeded. -/
def accepted (calls : List (Call α σ)) : List α :=
  (calls.filter (·.result.isOk)).map (·.item)

theorem made_cons_of_ok {n : Nat} (h : send item state = (.ok n, next)) :
    made send (item :: items) state =
      { item, result := .ok n, before := state, after := next } :: made send items next := by
  simp only [made, attempted, history, h]

theorem made_cons_of_error {e : RtspError} (h : send item state = (.error e, next)) :
    made send (item :: items) state =
      [{ item, result := .error e, before := state, after := next }] := by
  simp only [made, attempted, history, h]

/-- Only the last of the calls can have failed. -/
theorem isOk_of_mem_dropLast_made :
    ∀ call ∈ (made send items state).dropLast, call.result.isOk = true := by
  induction items generalizing state with
  | nil => simp [made, attempted, history]
  | cons item items ih =>
    rcases hs : send item state with ⟨⟨e⟩ | ⟨n⟩, next⟩
    · simp [made_cons_of_error hs]
    · rw [made_cons_of_ok hs]
      intro call hcall
      by_cases hrest : made send items next = []
      · simp [hrest] at hcall
      · rw [List.dropLast_cons_of_ne_nil hrest, List.mem_cons] at hcall
        obtain rfl | hcall := hcall
        · rfl
        · exact ih call hcall

/-- Sends in order fail as the last of the calls does. -/
theorem getLast?_made_of_error {e : RtspError} (h : (sendEach send items state).1 = .error e) :
    (made send items state).getLast?.map (·.result) = some (.error e) := by
  induction items generalizing state with
  | nil => cases h
  | cons item items ih =>
    rcases hs : send item state with ⟨⟨e'⟩ | ⟨n⟩, next⟩
    · rw [sendEach_cons_of_error hs] at h
      rw [made_cons_of_error hs]
      cases h
      rfl
    · have hrest : (sendEach send items next).1 = .error e := by
        rw [sendEach_cons_of_ok hs] at h
        cases hr : (sendEach send items next).1 with
        | error e' =>
          rw [hr] at h
          cases h
          rfl
        | ok others =>
          rw [hr] at h
          cases h
      have hlast := ih hrest
      rw [made_cons_of_ok hs, List.getLast?_cons]
      cases hl : (made send items next).getLast? with
      | none =>
        rw [hl] at hlast
        cases hlast
      | some last =>
        rw [hl] at hlast
        exact hlast

/-- The items that were sent are the first of those given, and all of them if and only if the
sends in order succeed. -/
theorem accepted_made (send : α → σ → Except RtspError Nat × σ) (items : List α) (state : σ) :
    accepted (made send items state) <+: items ∧
      ((sendEach send items state).1.isOk = true ↔ accepted (made send items state) = items) := by
  induction items generalizing state with
  | nil => exact ⟨List.prefix_rfl, by simp [made, attempted, history, accepted]; rfl⟩
  | cons item items ih =>
    rcases hs : send item state with ⟨⟨e⟩ | ⟨n⟩, next⟩
    · have hnone : accepted (made send (item :: items) state) = [] := by
        rw [made_cons_of_error hs]
        rfl
      rw [hnone, sendEach_cons_of_error hs]
      exact ⟨List.nil_prefix, by simp [Except.isOk, Except.toBool]⟩
    · have hone : accepted (made send (item :: items) state) =
          item :: accepted (made send items next) := by
        rw [made_cons_of_ok hs]
        rfl
      obtain ⟨hfront, hiff⟩ := ih next
      rw [hone, sendEach_cons_of_ok hs, List.cons_prefix_cons, List.cons.injEq, ← hiff]
      refine ⟨⟨rfl, hfront⟩, ?_⟩
      cases (sendEach send items next).1 <;> simp [Except.map, Except.isOk, Except.toBool]

/-- If each send that succeeds gives by how much it raises a measure, then so do sends in
order. -/
theorem sendEach_raises (measure : σ → Nat)
    (hsend : ∀ {item state n next}, send item state = (.ok n, next) →
      measure next = measure state + n)
    {n : Nat} {after : σ} (h : sendEach send items state = (.ok n, after)) :
    measure after = measure state + n := by
  induction items generalizing state n with
  | nil =>
    cases h
    rfl
  | cons item items ih =>
    obtain ⟨first, others, next, hs, hrest, rfl⟩ := of_sendEach_cons h
    rw [ih hrest, hsend hs, Nat.add_assoc]

/-- Calls that are each a run of smaller calls make one run of smaller calls. -/
theorem exists_flatMap_history {β : Type} {whole : β → σ → Except RtspError Nat × σ}
    (pieces : β → σ → List α)
    (h : ∀ x state, (whole x state).2 = leaves send (pieces x state) state)
    (xs : List β) (state : σ) :
    ∃ items, (history whole xs state).flatMap
        (fun call => history send (pieces call.item call.before) call.before) =
          history send items state ∧
      leaves whole xs state = leaves send items state := by
  induction xs generalizing state with
  | nil => exact ⟨[], rfl, rfl⟩
  | cons x xs ih =>
    obtain ⟨items, hitems, hleaves⟩ := ih (whole x state).2
    refine ⟨pieces x state ++ items, ?_, ?_⟩
    · rw [history, List.flatMap_cons, hitems, history_append, ← h]
    · rw [leaves_cons, hleaves, leaves_append, ← h]

end

/-! ### One send -/

namespace Sender

variable {s t : Sender} {link after : Link} {timestamp : Timestamp} {marker : Bool}
  {head payload : Bytes}

/-- A send that succeeds puts the next packet on the wire and goes on to the next number. -/
theorem carries_of_send {n : Nat}
    (h : send timestamp marker head payload (s, link) = (.ok n, t, after)) :
    s.delivery.Carries (s.packet timestamp marker head payload) link after ∧
      t = { s with sequence := s.sequence + 1 } := by
  simp only [send] at h
  split at h
  · rename_i hd
    cases h
    exact ⟨Delivery.carries_of_send hd, rfl⟩
  · cases h

/-- A send that fails leaves the stream as it was. -/
theorem eq_of_send_error {e : RtspError}
    (h : send timestamp marker head payload (s, link) = (.error e, t, after)) : t = s := by
  simp only [send] at h
  split at h
  · cases h
  · cases h
    rfl

theorem packet_eq : s.packet timestamp marker head payload =
    (s.header timestamp marker).encode ++ (head ++ payload) := by
  rw [packet, List.append_assoc]

theorem length_packet : (s.packet timestamp marker head payload).length =
    Header.length + (head ++ payload).length := by
  rw [packet_eq, List.length_append, Header.length_encode]

/-- A receiver reads the stream's own headers as they were, since the payload type fits. -/
theorem decode?_header (s : Sender) (timestamp : Timestamp) (marker : Bool) (rest : Bytes) :
    Header.decode? ((s.header timestamp marker).encode ++ rest) =
      some (s.header timestamp marker) := by
  have htype : s.payloadType &&& 0x7F = s.payloadType := and_low_bits_of_lt _ s.payloadType_lt
  rw [Header.decode?_encode]
  simp only [header, htype]
  rfl

end Sender

/-! ### Whole runs -/

namespace Sender

/-- The call put one packet of the stream on the wire, which reads back as what was asked,
under the given number. -/
def Delivers (s : Sender) (number : UInt16) (call : Call Sending (Sender × Link)) : Prop :=
  ∃ packet, s.delivery.Carries packet call.before.2 call.after.2 ∧
    Header.decode? (packet.take Header.length) = some
      { padding := false
        extension := false
        csrcCount := 0
        marker := call.item.marker
        payloadType := s.payloadType
        sequence := number
        timestamp := call.item.timestamp.toClock s.clockRate
        ssrc := s.ssrc } ∧
    packet.drop Header.length = call.item.head ++ call.item.payload

/-- The two ways a call can end. -/
theorem perform_cases (s : Sender) (link : Link) (x : Sending) :
    (∃ n after, perform x (s, link) = (.ok n, { s with sequence := s.sequence + 1 }, after) ∧
      s.delivery.Carries (s.packet x.timestamp x.marker x.head x.payload) link after) ∨
    ∃ e after, perform x (s, link) = (.error e, s, after) := by
  rcases hp : perform x (s, link) with ⟨result, t, after⟩
  cases result with
  | ok n =>
    obtain ⟨hcarries, rfl⟩ := carries_of_send hp
    exact .inl ⟨n, after, rfl, hcarries⟩
  | error e =>
    obtain rfl := eq_of_send_error hp
    exact .inr ⟨e, after, rfl⟩

theorem delivers_of_carries {s : Sender} {link after : Link} {x : Sending}
    {result : Except RtspError Nat} {t : Sender}
    (h : s.delivery.Carries (s.packet x.timestamp x.marker x.head x.payload) link after) :
    s.Delivers s.sequence { item := x, result, before := (s, link), after := (t, after) } := by
  have hlength := Header.length_encode (s.header x.timestamp x.marker)
  refine ⟨_, h, ?_, ?_⟩
  · have hread := s.decode?_header x.timestamp x.marker []
    rw [List.append_nil] at hread
    rw [packet_eq, ← hlength, List.take_left, hread]
    rfl
  · rw [packet_eq, ← hlength, List.drop_left]

/-- Whatever the link makes of the calls of a run, the `k`-th of those that succeed puts one
packet on the wire, numbered `k` after the first number of the stream, and a call that fails
leaves the stream as it was. So the next number counts the calls that succeeded. -/
theorem history_numbers_delivered (s : Sender) (link : Link) (sendings : List Sending) :
    let calls := history perform sendings (s, link)
    let delivered := calls.filter (·.result.isOk)
    (∀ (k : Nat) (call : Call Sending (Sender × Link)),
      delivered[k]? = some call → s.Delivers (s.sequence + .ofNat k) call) ∧
    (∀ call ∈ calls, call.result.isOk = false → call.after.1 = call.before.1) ∧
    (leaves perform sendings (s, link)).1.sequence = s.sequence + .ofNat delivered.length := by
  intro calls delivered
  induction sendings generalizing s link with
  | nil => simp [calls, delivered, history]
  | cons x sendings ih =>
    rcases perform_cases s link x with ⟨n, after, hp, hcarries⟩ | ⟨e, after, hp⟩
    · obtain ⟨hnumbers, hfailed, hnext⟩ := ih { s with sequence := s.sequence + 1 } after
      have hcount (k : Nat) : s.sequence + 1 + .ofNat k = s.sequence + .ofNat (k + 1) := by
        rw [Nat.add_comm, UInt16.ofNat_add, UInt16.add_assoc]
        rfl
      simp only [calls, delivered, history, leaves_cons, hp, List.filter_cons, Except.isOk,
        Except.toBool, if_true]
      refine ⟨?_, ?_, ?_⟩
      · intro k call hk
        cases k with
        | zero =>
          cases hk
          rw [show s.sequence + UInt16.ofNat 0 = s.sequence from UInt16.add_zero _]
          exact delivers_of_carries hcarries
        | succ k =>
          rw [← hcount]
          exact hnumbers k call hk
      · simp only [List.mem_cons, forall_eq_or_imp, Bool.true_eq_false, false_implies, true_and]
        exact hfailed
      · rw [hnext, hcount]
        rfl
    · obtain ⟨hnumbers, hfailed, hnext⟩ := ih s after
      simp only [calls, delivered, history, leaves_cons, hp, List.filter_cons, Except.isOk,
        Except.toBool]
      refine ⟨hnumbers, ?_, hnext⟩
      simp only [List.mem_cons, forall_eq_or_imp, implies_true, true_and]
      exact hfailed

end Sender

end RealTimeStreaming.Rtp
