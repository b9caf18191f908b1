import RealTimeStreaming.Proofs.Streams.Program
import RealTimeStreaming.Proofs.Wire.Output
import RealTimeStreaming.Session.Streaming

/-! Requests among streams. A turn of the streams changes nothing of an exchange but its link, and
a stream that is started changes nothing for the packets of those before it. So the turns that come
between the acts of a handler can be put together: those ahead of a response are packets of streams
that were started by then, and those behind it may come after all starts. -/

namespace RealTimeStreaming

/-- Over a connection that works a packet changes the numbering and may put a frame on the
connection, and nothing else. -/
theorem Rtp.Sender.perform_writes (s : Sender) {link : Link}
    (hr : link.connection.behaviour.Reliable) (x : Sending) :
    ∃ result n after messages, perform x (s, link) = (result, s.advance n, after) ∧
      after.connection.behaviour = link.connection.behaviour ∧
      link.connection.Wrote messages after.connection ∧ Outgoing.responses messages = [] := by
  cases hd : s.delivery with
  | interleaved channel =>
    obtain ⟨after, hperform, hkeeps, hcarries⟩ := perform_of_outcome hd hr x
    by_cases hok : (s.outcome x).isOk = true
    · rw [if_pos hok] at hperform hcarries
      rw [hd] at hcarries
      obtain ⟨⟨frame, hframe, htaken⟩, -⟩ := hcarries
      have hspelled : Outgoing.Spelled
          (.frame channel (s.packet x.timestamp x.marker x.head x.payload)) frame := hframe
      exact ⟨_, 1, after, _, hperform, hkeeps, .of_spelled hspelled htaken, rfl⟩
    · rw [if_neg hok] at hperform hcarries
      refine ⟨s.outcome x, 0, after, [], ?_, hkeeps, ?_, rfl⟩
      · rw [hperform, advance_zero]
      · rw [hcarries]
        exact .refl _
  | datagrams destination =>
    rcases hs : s.delivery.send link (s.packet x.timestamp x.marker x.head x.payload)
      with ⟨result, after⟩
    have hsame : after.connection = link.connection := by
      rw [hd] at hs
      simp only [Delivery.send, Prod.mk.injEq] at hs
      rw [← hs.2]
    refine ⟨result, if result.isOk then 1 else 0, after, [], ?_, by rw [hsame],
      hsame ▸ .refl _, rfl⟩
    rw [perform_of_send hs]
    split
    · rfl
    · rw [advance_zero]

namespace Streams

variable {s : Streams} {packet : Nat × Rtp.Sending} {packets : Burst}

/-! ### Packets of streams -/

@[simp] theorem sendAll_nil (s : Streams) : s.sendAll [] = s := rfl

@[simp] theorem sendAll_cons (s : Streams) (packet : Nat × Rtp.Sending) (packets : Burst) :
    s.sendAll (packet :: packets) = (s.send packet).sendAll packets := rfl

theorem sendAll_append (s : Streams) (packets more : Burst) :
    s.sendAll (packets ++ more) = (s.sendAll packets).sendAll more :=
  List.foldl_append

theorem send_of_length_le (h : s.senders.length ≤ packet.1) : s.send packet = s := by
  simp only [send, List.getElem?_eq_none h]

theorem send_of_getElem? {rtp : Rtp.Sender} (h : s.senders[packet.1]? = some rtp) :
    s.send packet =
      { link := (Rtp.Sender.perform packet.2 (rtp, s.link)).2.2
        senders := s.senders.set packet.1 (Rtp.Sender.perform packet.2 (rtp, s.link)).2.1
        log := s.log ++ [(packet.1, s.link.connection.taken)] } := by
  simp only [send, h]

theorem length_senders_send (s : Streams) (packet : Nat × Rtp.Sending) :
    (s.send packet).senders.length = s.senders.length := by
  unfold send
  split
  · rfl
  · exact List.length_set

theorem length_senders_sendAll (s : Streams) (packets : Burst) :
    (s.sendAll packets).senders.length = s.senders.length := by
  induction packets generalizing s with
  | nil => rfl
  | cons packet packets ih => rw [sendAll_cons, ih, length_senders_send]

/-- Every stream goes on with its numbers. -/
theorem getElem?_senders_send (hr : s.link.connection.behaviour.Reliable)
    (packet : Nat × Rtp.Sending) {i : Nat} {rtp : Rtp.Sender}
    (h : (s.send packet).senders[i]? = some rtp) :
    ∃ (old : Rtp.Sender) (n : Nat), s.senders[i]? = some old ∧ rtp = old.advance n := by
  cases hold : s.senders[packet.1]? with
  | none =>
    rw [send_of_length_le (List.getElem?_eq_none_iff.1 hold)] at h
    exact ⟨rtp, 0, h, (Rtp.Sender.advance_zero _).symm⟩
  | some old =>
    obtain ⟨result, n, after, messages, hperform, -⟩ := old.perform_writes hr packet.2
    rw [send_of_getElem? hold, hperform, List.getElem?_set] at h
    split at h
    · rename_i hi
      split at h
      · cases h
        exact ⟨old, n, hi ▸ hold, rfl⟩
      · cases h
    · exact ⟨rtp, 0, h, (Rtp.Sender.advance_zero _).symm⟩

/-- What streams send on a connection that works are frames. -/
theorem send_writes (hr : s.link.connection.behaviour.Reliable) (packet : Nat × Rtp.Sending) :
    ∃ messages, s.link.connection.Wrote messages (s.send packet).link.connection ∧
      Outgoing.responses messages = [] ∧
      (s.send packet).link.connection.behaviour = s.link.connection.behaviour := by
  cases hold : s.senders[packet.1]? with
  | none =>
    rw [send_of_length_le (List.getElem?_eq_none_iff.1 hold)]
    exact ⟨[], .refl _, rfl, rfl⟩
  | some old =>
    obtain ⟨result, n, after, messages, hperform, hkeeps, hwrote, hframes⟩ :=
      old.perform_writes hr packet.2
    rw [send_of_getElem? hold, hperform]
    exact ⟨messages, hwrote, hframes, hkeeps⟩

theorem sendAll_writes (hr : s.link.connection.behaviour.Reliable) (packets : Burst) :
    ∃ messages, s.link.connection.Wrote messages (s.sendAll packets).link.connection ∧
      Outgoing.responses messages = [] ∧
      (s.sendAll packets).link.connection.behaviour = s.link.connection.behaviour := by
  induction packets generalizing s with
  | nil => exact ⟨[], .refl _, rfl, rfl⟩
  | cons packet packets ih =>
    obtain ⟨first, hfirst, hframe, hkeeps⟩ := send_writes hr packet
    obtain ⟨rest, hrest, hframes, hkept⟩ := ih (hkeeps ▸ hr)
    refine ⟨first ++ rest, hfirst.trans hrest, ?_, hkept.trans hkeeps⟩
    rw [Outgoing.responses, List.filterMap_append]
    exact List.append_eq_nil_iff.2 ⟨hframe, hframes⟩

theorem getElem?_senders_sendAll (hr : s.link.connection.behaviour.Reliable) (packets : Burst)
    {i : Nat} {rtp : Rtp.Sender} (h : (s.sendAll packets).senders[i]? = some rtp) :
    ∃ (old : Rtp.Sender) (n : Nat), s.senders[i]? = some old ∧ rtp = old.advance n := by
  induction packets generalizing s with
  | nil => exact ⟨rtp, 0, h, (Rtp.Sender.advance_zero _).symm⟩
  | cons packet packets ih =>
    obtain ⟨-, -, -, hkeeps⟩ := send_writes hr packet
    obtain ⟨next, n, hnext, rfl⟩ := ih (hkeeps ▸ hr) h
    obtain ⟨old, m, hold, rfl⟩ := getElem?_senders_send hr packet hnext
    exact ⟨old, m + n, hold, Rtp.Sender.advance_advance _ _ _⟩

/-- Every packet that is logged is one of a stream that there is, and goes out behind all that the
connection had taken before. -/
theorem mem_log_sendAll (hr : s.link.connection.behaviour.Reliable) (packets : Burst)
    {i : Nat} {taken : Bytes} (h : (i, taken) ∈ (s.sendAll packets).log) :
    (i, taken) ∈ s.log ∨ i < s.senders.length ∧ s.link.connection.taken <+: taken := by
  induction packets generalizing s with
  | nil => exact .inl h
  | cons packet packets ih =>
    obtain ⟨messages, hwrote, -, hkeeps⟩ := send_writes hr packet
    obtain hlog | ⟨hlt, hmore⟩ := ih (hkeeps.symm ▸ hr) h
    · cases hold : s.senders[packet.1]? with
      | none =>
        rw [send_of_length_le (List.getElem?_eq_none_iff.1 hold)] at hlog
        exact .inl hlog
      | some rtp =>
        rw [send_of_getElem? hold, List.mem_append, List.mem_singleton] at hlog
        obtain hbefore | hnow := hlog
        · exact .inl hbefore
        · obtain ⟨rfl, rfl⟩ := Prod.mk.inj hnow
          exact .inr ⟨(List.getElem?_eq_some_iff.1 hold).1, List.prefix_rfl⟩
    · rw [length_senders_send] at hlt
      exact .inr ⟨hlt, hwrote.taken_grows.trans hmore⟩

/-- Writes a response on the connection that the streams share. -/
def write (s : Streams) (r : Response) : Streams :=
  { s with link := { s.link with connection := (s.link.connection.write r.encode).2 } }

theorem behaviour_write (s : Streams) (r : Response) :
    (s.write r).link.connection.behaviour = s.link.connection.behaviour :=
  s.link.connection.behaviour_write r.encode

/-- A connection that works still works behind packets, a response and the start of streams. -/
theorem reliable_answered (hr : s.link.connection.behaviour.Reliable) (packets : Burst)
    (r : Response) (more : List Rtp.Sender) :
    (((s.sendAll packets).write r).start more).link.connection.behaviour.Reliable := by
  obtain ⟨-, -, -, hkeeps⟩ := sendAll_writes hr packets
  have hsame := (behaviour_write (s.sendAll packets) r).trans hkeeps
  exact hsame.symm ▸ hr

theorem taken_grows_answered (hr : s.link.connection.behaviour.Reliable) (packets : Burst)
    (r : Response) :
    s.link.connection.taken <+: ((s.sendAll packets).write r).link.connection.taken := by
  obtain ⟨messages, hwrote, -, hkeeps⟩ := sendAll_writes hr packets
  exact hwrote.taken_grows.trans (Sink.Wrote.response (hkeeps.symm ▸ hr) r).taken_grows

/-! ### Starts among packets -/

/-- The packets are those of streams that were started. -/
def Sends (s : Streams) (packets : Burst) : Prop :=
  ∀ packet ∈ packets, packet.1 < s.senders.length

/-- The packets of streams that were not started can be left out. -/
theorem exists_sends (s : Streams) (packets : Burst) :
    ∃ sent, s.Sends sent ∧ s.sendAll packets = s.sendAll sent := by
  induction packets generalizing s with
  | nil => exact ⟨[], by simp [Sends], rfl⟩
  | cons packet packets ih =>
    obtain ⟨sent, hsent, hsame⟩ := ih (s.send packet)
    simp only [Sends, length_senders_send] at hsent
    by_cases hlt : packet.1 < s.senders.length
    · exact ⟨packet :: sent, List.forall_mem_cons.2 ⟨hlt, hsent⟩, hsame⟩
    · rw [send_of_length_le (Nat.le_of_not_lt hlt)] at hsame
      refine ⟨sent, hsent, ?_⟩
      rw [sendAll_cons, send_of_length_le (Nat.le_of_not_lt hlt), hsame]

/-- A packet can come before or after the start of other streams. -/
theorem start_send (h : packet.1 < s.senders.length) (more : List Rtp.Sender) :
    (s.send packet).start more = (s.start more).send packet := by
  obtain ⟨rtp, hrtp⟩ : ∃ rtp, s.senders[packet.1]? = some rtp :=
    ⟨_, List.getElem?_eq_getElem h⟩
  have hstarted : (s.start more).senders[packet.1]? = some rtp := by
    rw [start, List.getElem?_append_left h, hrtp]
  rw [send_of_getElem? hrtp, send_of_getElem? hstarted]
  simp only [start, List.set_append_left _ _ h]

theorem start_sendAll (h : s.Sends packets) (more : List Rtp.Sender) :
    (s.sendAll packets).start more = (s.start more).sendAll packets := by
  induction packets generalizing s with
  | nil => rfl
  | cons packet packets ih =>
    obtain ⟨hfirst, hrest⟩ := List.forall_mem_cons.1 h
    have hsends : (s.send packet).Sends packets := by
      simpa only [Sends, length_senders_send] using hrest
    rw [sendAll_cons, ih hsends, start_send hfirst, sendAll_cons]

theorem start_start (s : Streams) (first rest : List Rtp.Sender) :
    (s.start first).start rest = s.start (first ++ rest) := by
  simp only [start, List.append_assoc]

end Streams

/-! ### Handlers among streams -/

namespace SharedExchange

theorem streams_yield (x : SharedExchange) :
    x.yield.streams = x.streams.sendAll (x.ahead.headD []) := rfl

theorem exchange_yield (x : SharedExchange) :
    x.yield.exchange = { x.exchange with link := x.yield.exchange.link } := rfl

/-- Streams that have nothing to send let their turn pass. -/
theorem yield_of_silent {x : SharedExchange} (h : x.ahead = []) : x.yield = x := by
  obtain ⟨exchange, senders, log, ahead⟩ := x
  obtain rfl : ahead = [] := h
  rfl

end SharedExchange

namespace Handler

variable {α β : Type}

theorem runAmong_bind (h : Handler α) (f : α → Handler β) (x : SharedExchange) :
    (h.bind f).runAmong x = (f (h.runAmong x).1).runAmong (h.runAmong x).2 := by
  induction h generalizing x with
  | done value => rfl
  | header name value next ih => exact ih _
  | body content next ih => exact ih _
  | respond status reason next ih => exact ih _ _
  | sendFrame channel payload next ih => exact ih _ _
  | look next ih => exact ih _ _
  | start stream next ih => exact ih _

/-- Among streams that send nothing a handler does what it does alone. -/
theorem runAmong_of_silent (h : Handler α) {x : SharedExchange} (hx : x.ahead = []) :
    ∃ y, h.runAmong x = ((h.run x.exchange).1, y) ∧
      y.exchange = (h.run x.exchange).2 ∧ y.ahead = [] := by
  induction h generalizing x with
  | done value => exact ⟨x, rfl, rfl, hx⟩
  | header name value next ih =>
    simp only [runAmong, SharedExchange.yield_of_silent hx]
    exact ih hx
  | body content next ih =>
    simp only [runAmong, SharedExchange.yield_of_silent hx]
    exact ih hx
  | respond status reason next ih =>
    simp only [runAmong, SharedExchange.yield_of_silent hx]
    exact ih _ hx
  | sendFrame channel payload next ih =>
    simp only [runAmong, SharedExchange.yield_of_silent hx]
    exact ih _ hx
  | look next ih =>
    simp only [runAmong, SharedExchange.yield_of_silent hx]
    exact ih _ hx
  | start stream next ih =>
    simp only [runAmong, SharedExchange.yield_of_silent hx]
    exact ih hx

/-- Whatever goes out while streams are started, it might as well go out when they all are. -/
theorem runAmong_startAll (more : List Rtp.Sender) (x : SharedExchange) :
    ∃ packets y, (startAll more).runAmong x = ((), y) ∧
      y.streams = (x.streams.start more).sendAll packets ∧
      y.exchange = { x.exchange with link := y.streams.link } := by
  induction more generalizing x with
  | nil =>
    refine ⟨[], x, rfl, ?_, rfl⟩
    simp only [Streams.start, List.append_nil, Streams.sendAll_nil]
  | cons stream rest ih =>
    obtain ⟨packets, y, hrun, hstreams, hexchange⟩ :=
      ih { x.yield with senders := x.yield.senders ++ [stream] }
    have hnext : SharedExchange.streams { x.yield with senders := x.yield.senders ++ [stream] } =
        (x.streams.sendAll (x.ahead.headD [])).start [stream] := rfl
    obtain ⟨sent, hsent, hsame⟩ := x.streams.exists_sends (x.ahead.headD [])
    have hsends : (x.streams.start [stream]).Sends sent := by
      intro packet hmem
      simp only [Streams.start, List.length_append]
      exact Nat.lt_add_right _ (hsent packet hmem)
    refine ⟨sent ++ packets, y, hrun, ?_, hexchange⟩
    rw [hstreams, hnext, hsame, Streams.start_sendAll hsent, Streams.start_sendAll hsends,
      Streams.start_start, List.singleton_append, Streams.sendAll_append]

end Handler

namespace Controller

variable {γ : Type} (c : Controller γ) (r : Request) (s : γ) {x : SharedExchange}

/-- Among streams that send nothing a request is answered as it is on a connection without any. -/
theorem settleAmong_of_silent (hx : x.ahead = []) :
    ∃ y, c.settleAmong r s x =
        ((c.settle r s x.exchange).1, (c.settle r s x.exchange).2.1, y) ∧
      y.exchange = (c.settle r s x.exchange).2.2 ∧ y.ahead = [] := by
  obtain ⟨first, hbefore, hfirst, hsilent⟩ := (c.before r s).runAmong_of_silent hx
  obtain ⟨second, hhook, hsecond, hsilent⟩ :=
    (c.hook r.method r ((c.before r s).run x.exchange).1).runAmong_of_silent hsilent
  rw [hfirst] at hhook hsecond
  refine ⟨{ second with exchange := (c.settle r s x.exchange).2.2 }, ?_, rfl, hsilent⟩
  simp only [settleAmong, settle, hbefore, hhook, SharedExchange.yield_of_silent hsilent, hsecond]

theorem dispatchAmong_of_silent (hx : x.ahead = []) :
    ∃ y, c.dispatchAmong r s x =
        ((c.dispatch r s x.exchange).1, (c.dispatch r s x.exchange).2.1, y) ∧
      y.exchange = (c.dispatch r s x.exchange).2.2 ∧ y.ahead = [] := by
  obtain ⟨settled, hsettle, hexchange, hsilent⟩ := c.settleAmong_of_silent r s hx
  obtain ⟨y, hafter, hlast, hsilent⟩ := (c.after (c.settle r s x.exchange).1 r
    (c.settle r s x.exchange).2.1).handler.runAmong_of_silent hsilent
  rw [hexchange] at hafter hlast
  refine ⟨y, ?_, hlast, hsilent⟩
  simp only [dispatchAmong, dispatch, hsettle, hafter]

end Controller

end RealTimeStreaming
