import RealTimeStreaming.Proofs.Demo.Answers
import RealTimeStreaming.Proofs.Transport.Written

/-! What a SETUP is answered with and what it sets up agree. A client that reads the confirmation
finds the transport it asked for and the session that its stream waits in; and the first check that
a SETUP fails decides the answer, which then confirms nothing. -/

namespace RealTimeStreaming.Demo

variable {p q : Player} {r : Request} {status : UInt16} {reason : String}

/-! ### What a SETUP has to pass -/

/-- The request names a session or leaves that to the server. -/
def SessionClear (r : Request) : Prop :=
  ∀ value, r.header? "Session" = some value → ∃ session, Names r session

/-- The first check that a SETUP fails, with the answer to it. -/
inductive Refused (p : Player) (r : Request) : UInt16 → String → Prop
  | unserved (hhas : p.media.has (StreamKind.ofUri r.uri) = false) :
      Refused p r 404 "Stream Not Found"
  | session (hhas : p.media.has (StreamKind.ofUri r.uri) = true) {value : String}
      (hvalue : r.header? "Session" = some value) (h : ∀ session, ¬ Names r session) :
      Refused p r 400 "Malformed `Session'"
  | absent (hhas : p.media.has (StreamKind.ofUri r.uri) = true) (hclear : SessionClear r)
      (h : r.header? "Transport" = none) : Refused p r 400 "`Transport' not present"
  | malformed (hhas : p.media.has (StreamKind.ofUri r.uri) = true) (hclear : SessionClear r)
      {value : String} (hvalue : r.header? "Transport" = some value)
      (h : TransportHeader.read? value = none) : Refused p r 400 "Malformed `Transport'"
  | noChannels (hhas : p.media.has (StreamKind.ofUri r.uri) = true) (hclear : SessionClear r)
      {value : String} {asked : TransportHeader} (hvalue : r.header? "Transport" = some value)
      (hasked : TransportHeader.read? value = some asked) (hlower : asked.lower = .tcp)
      (h : asked.channels = none) : Refused p r 400 "`interleaved' not found"
  | noPorts (hhas : p.media.has (StreamKind.ofUri r.uri) = true) (hclear : SessionClear r)
      {value : String} {asked : TransportHeader} (hvalue : r.header? "Transport" = some value)
      (hasked : TransportHeader.read? value = some asked) (hlower : asked.lower = .udp)
      (h : asked.ports = none) : Refused p r 400 "`client_port' not found"

/-- The confirmed transport is the one that was asked for, and packets leave by its first
number. -/
inductive Agrees (peer : Endpoint) (asked confirmed : TransportHeader) : Delivery → Prop
  | channels {pair : MediaPair UInt8} (hasked : asked.lower = .tcp ∧ asked.channels = some pair)
      (hconfirmed : confirmed.lower = .tcp ∧ confirmed.channels = some pair) :
      Agrees peer asked confirmed (.interleaved pair.media)
  | ports {pair : MediaPair UInt16} (hasked : asked.lower = .udp ∧ asked.ports = some pair)
      (hconfirmed : confirmed.lower = .udp ∧ confirmed.ports = some pair) :
      Agrees peer asked confirmed (.datagrams { host := peer.host, port := pair.media })

/-- The response confirms the transport that was asked for and the session of the stream that is
left waiting, which is the session that the request names if it names one. -/
inductive Granted (p : Player) (r : Request) (response : Response) (q : Player) : Prop
  | intro {value transport session : String} {asked confirmed : TransportHeader} {id : UInt64}
    {rtp : Rtp.Sender}
    (hvalue : r.header? "Transport" = some value)
    (hasked : TransportHeader.read? value = some asked)
    (response : response =
      answer r.cseq 200 "OK" [("Transport", transport), ("Session", session)] none)
    (hconfirmed : TransportHeader.read? transport = some confirmed)
    (agrees : Agrees p.peer asked confirmed rtp.delivery)
    (hid : ∀ next : Request, next.header? "Session" = some session →
      sessionOf? next = some (.ok id))
    (named : ∀ other, Names r other → other = id)
    (pending : ∀ kind, q.pending kind =
      if kind = StreamKind.ofUri r.uri then some { session := id, rtp } else p.pending kind)

/-! ### One check after another -/

theorem sessionOf?_eq_error_iff :
    (∃ e, sessionOf? r = some (.error e)) ↔
      (∃ value, r.header? "Session" = some value) ∧ ∀ session, ¬ Names r session := by
  constructor
  · rintro ⟨e, he⟩
    refine ⟨?_, fun session hnames => ?_⟩
    · rw [sessionOf?, Option.map_eq_some_iff] at he
      obtain ⟨value, hvalue, -⟩ := he
      exact ⟨value, hvalue⟩
    · cases he.symm.trans (sessionOf?_eq_ok_iff.2 hnames)
  · rintro ⟨⟨value, hvalue⟩, hnone⟩
    cases hs : Text.readUInt64 (Text.trimBlanks (value.toList.takeWhile (· != ';'))) with
    | error e => exact ⟨e, by rw [sessionOf?, hvalue, Option.map_some, hs]⟩
    | ok session =>
      refine absurd (sessionOf?_eq_ok_iff.1 ?_) (hnone session)
      rw [sessionOf?, hvalue, Option.map_some, hs]

theorem sessionClear_iff : SessionClear r ↔ ∀ e, sessionOf? r ≠ some (.error e) := by
  rw [← not_exists, sessionOf?_eq_error_iff, SessionClear]
  constructor
  · rintro hclear ⟨⟨value, hvalue⟩, hnone⟩
    obtain ⟨session, hnames⟩ := hclear value hvalue
    exact hnone session hnames
  · intro h value hvalue
    by_contra hnone
    exact h ⟨⟨value, hvalue⟩, not_exists.1 hnone⟩

theorem sessionOf?_of_written {id : UInt64} (h : r.header? "Session" = some (toString id)) :
    sessionOf? r = some (.ok id) := by
  have hsemicolon : ';' ∉ (toString id.toNat).toList := fun hm =>
    absurd (Text.isDigit_of_mem_toString hm) (by decide)
  refine sessionOf?_eq_ok_iff.2 ⟨_, h, ?_⟩
  change Text.Decimal (Text.trimBlanks ((toString id.toNat).toList.takeWhile (· != ';'))) _
  rw [Text.takeWhile_ne_eq_self hsemicolon, Text.trimBlanks_toString]
  exact Text.decimal_toString id.toNat

namespace Player

theorem Answers.unique {status' : UInt16} {reason' : String}
    {headers headers' : List (String × String)} {body body' : Option Bytes}
    {started started' : List Rtp.Sender} {q' : Player}
    (h : Answers p r status reason headers body started q)
    (h' : Answers p r status' reason' headers' body' started' q') :
    answer r.cseq status reason headers body = answer r.cseq status' reason' headers' body' ∧
      q = q' := by
  have hworks : ({} : Link).connection.behaviour.Reliable := Behaviour.reliable_accepting
  obtain ⟨after, hd, htaken, -⟩ := h.dispatch hworks p.peer
  obtain ⟨after', hd', htaken', -⟩ := h'.dispatch hworks p.peer
  rw [hd] at hd'
  simp only [Prod.mk.injEq, Exchange.mk.injEq] at hd'
  obtain ⟨-, hq, -, -, rfl, -⟩ := hd'
  have hcut := (plain_answer r.cseq status body h.reason h.headers).cut?_encode_append []
  have hcut' := (plain_answer r.cseq status' body' h'.reason h'.headers).cut?_encode_append []
  rw [← List.append_cancel_left (htaken.symm.trans htaken'), hcut] at hcut'
  cases hcut'
  exact ⟨rfl, hq⟩

theorem answers_of_fault (hmethod : r.method = .setup)
    (hhas : p.media.has (StreamKind.ofUri r.uri) = true) (hclear : SessionClear r)
    {fault : TransportFault} (h : p.deliveryFor r = .error fault) :
    ∃ q, Answers p r fault.reply.1 fault.reply.2 [] none [] q ∧ q.pending = p.pending := by
  obtain ⟨random, session, -, hsetup⟩ := setup_eq_join hhas (sessionClear_iff.1 hclear)
  rw [← hook_of_setup hmethod] at hsetup
  have hd : ({ p with random } : Player).deliveryFor r = .error fault := h
  have hreplies := replies_join_of_error hd (StreamKind.ofUri r.uri) session
  refine ⟨{ p with random }, ⟨hsetup ▸ hreplies, fault.reply_fails.2, by simp⟩, ?_⟩
  funext kind
  cases kind <;> rfl

theorem answers_of_refused (hmethod : r.method = .setup) (h : Refused p r status reason) :
    ∃ q, Answers p r status reason [] none [] q ∧ q.pending = p.pending := by
  cases h with
  | unserved hhas =>
    have hreplies := replies_setup_of_unserved hhas
    exact ⟨p, ⟨hook_of_setup hmethod ▸ hreplies, by decide, by simp⟩, rfl⟩
  | session hhas hvalue hnone =>
    obtain ⟨e, he⟩ := sessionOf?_eq_error_iff.2 ⟨⟨_, hvalue⟩, hnone⟩
    have hreplies := replies_setup_of_malformed hhas he
    exact ⟨p, ⟨hook_of_setup hmethod ▸ hreplies, by decide, by simp⟩, rfl⟩
  | absent hhas hclear h =>
    have hd : p.deliveryFor r = .error .absent := by
      rw [deliveryFor, h]
    exact answers_of_fault hmethod hhas hclear hd
  | malformed hhas hclear hvalue h =>
    have hd : p.deliveryFor r = .error .malformed := by
      simp only [deliveryFor, hvalue, h]
    exact answers_of_fault hmethod hhas hclear hd
  | noChannels hhas hclear hvalue hasked hlower h =>
    have hd : p.deliveryFor r = .error .noChannels := by
      simp only [deliveryFor, hvalue, hasked, hlower, h]
    exact answers_of_fault hmethod hhas hclear hd
  | noPorts hhas hclear hvalue hasked hlower h =>
    have hd : p.deliveryFor r = .error .noPorts := by
      simp only [deliveryFor, hvalue, hasked, hlower, h]
    exact answers_of_fault hmethod hhas hclear hd

theorem granted_of_delivery (hmethod : r.method = .setup)
    (hhas : p.media.has (StreamKind.ofUri r.uri) = true) (hclear : SessionClear r)
    {value transport : String} {asked confirmed : TransportHeader} {delivery : Delivery}
    (hvalue : r.header? "Transport" = some value)
    (hasked : TransportHeader.read? value = some asked)
    (hd : p.deliveryFor r = .ok (delivery, transport))
    (hconfirmed : TransportHeader.read? transport = some confirmed)
    (hagrees : Agrees p.peer asked confirmed delivery) :
    ∃ headers q, Answers p r 200 "OK" headers none [] q ∧
      Granted p r (answer r.cseq 200 "OK" headers none) q := by
  obtain ⟨random, id, hnamed, hsetup⟩ := setup_eq_join hhas (sessionClear_iff.1 hclear)
  rw [← hook_of_setup hmethod] at hsetup
  have hd' : ({ p with random } : Player).deliveryFor r = .ok (delivery, transport) := hd
  obtain ⟨rtp, q, hdelivery, hreplies, hpending, -⟩ :=
    replies_join_of_ok hd' (StreamKind.ofUri r.uri) id
  refine ⟨_, q, ⟨hsetup ▸ hreplies, by decide,
    plainHeader_confirmed (oneLine_confirmation hd) id⟩, ?_⟩
  exact .intro hvalue hasked rfl hconfirmed (hdelivery ▸ hagrees)
    (fun next => sessionOf?_of_written) hnamed hpending

/-- A SETUP that passes all checks is granted. -/
theorem granted_or_refused (hmethod : r.method = .setup)
    (havailable : p.datagramsAvailable = true) :
    (∃ headers q, Answers p r 200 "OK" headers none [] q ∧
      Granted p r (answer r.cseq 200 "OK" headers none) q) ∨
    ∃ status reason, Refused p r status reason := by
  cases hhas : p.media.has (StreamKind.ofUri r.uri) with
  | false => exact .inr ⟨_, _, .unserved hhas⟩
  | true =>
    by_cases hclear : SessionClear r
    · cases hvalue : r.header? "Transport" with
      | none => exact .inr ⟨_, _, .absent hhas hclear hvalue⟩
      | some value =>
        cases hasked : TransportHeader.read? value with
        | none => exact .inr ⟨_, _, .malformed hhas hclear hvalue hasked⟩
        | some asked =>
          cases hlower : asked.lower with
          | tcp =>
            cases hpair : asked.channels with
            | none => exact .inr ⟨_, _, .noChannels hhas hclear hvalue hasked hlower hpair⟩
            | some pair =>
              refine .inl (granted_of_delivery hmethod hhas hclear hvalue hasked ?_
                (TransportHeader.read?_written_channels pair)
                (.channels ⟨hlower, hpair⟩ ⟨rfl, rfl⟩))
              simp only [deliveryFor, hvalue, hasked, hlower, hpair]
          | udp =>
            cases hpair : asked.ports with
            | none => exact .inr ⟨_, _, .noPorts hhas hclear hvalue hasked hlower hpair⟩
            | some pair =>
              refine .inl (granted_of_delivery hmethod hhas hclear hvalue hasked ?_
                (TransportHeader.read?_written_ports pair) (.ports ⟨hlower, hpair⟩ ⟨rfl, rfl⟩))
              simp only [deliveryFor, hvalue, hasked, hlower, hpair, havailable, if_true]
    · simp only [SessionClear, not_forall, not_exists] at hclear
      obtain ⟨value, hvalue, hnone⟩ := hclear
      exact .inr ⟨_, _, .session hhas hvalue hnone⟩

/-- A SETUP gets one response. One with status 200 confirms what was asked for and what is set up;
the first check that fails is answered with its status and no header beside those of the server,
and the streams that wait stay as they are; and there is no third way. -/
theorem setup_answers_what_it_sets_up (p : Player) (r : Request) (hmethod : r.method = .setup)
    (havailable : p.datagramsAvailable = true) (peer : Endpoint) (link : Link)
    (hr : link.connection.behaviour.Reliable) :
    ∃ response q after,
      controller.dispatch r p { peer, cseq := r.cseq, link } =
        (.ok response.encode.length, q, { peer, cseq := r.cseq, link := after }) ∧
      after.connection.taken = link.connection.taken ++ response.encode ∧
      Response.cut? response.encode = some (response, []) ∧
      (response.status = 200 → Granted p r response q) ∧
      (∀ status reason, Refused p r status reason →
        response = answer r.cseq status reason [] none ∧ q.pending = p.pending) ∧
      (response.status = 200 ∨ ∃ status reason, Refused p r status reason) := by
  obtain ⟨status, reason, headers, q, hanswers, hgranted, hcases⟩ :
      ∃ status reason headers q, Answers p r status reason headers none [] q ∧
        (status = 200 → Granted p r (answer r.cseq status reason headers none) q) ∧
        (status = 200 ∨ ∃ status reason, Refused p r status reason) := by
    obtain ⟨headers, q, hanswers, hgranted⟩ | ⟨status, reason, hrefused⟩ :=
      granted_or_refused hmethod havailable
    · exact ⟨200, "OK", headers, q, hanswers, fun _ => hgranted, .inl rfl⟩
    · obtain ⟨q, hanswers, -⟩ := answers_of_refused hmethod hrefused
      refine ⟨status, reason, [], q, hanswers, fun hstatus => ?_, .inr ⟨status, reason, hrefused⟩⟩
      cases hrefused <;> exact absurd hstatus (by decide)
  obtain ⟨after, hdispatch, htaken, -⟩ := hanswers.dispatch hr peer
  have hcut := (plain_answer r.cseq status none hanswers.reason hanswers.headers).cut?_encode_append
    []
  rw [List.append_nil] at hcut
  refine ⟨_, q, after, hdispatch, htaken, hcut, hgranted, fun status' reason' hrefused => ?_,
    hcases⟩
  obtain ⟨q', hanswers', hpending⟩ := answers_of_refused hmethod hrefused
  obtain ⟨hsame, rfl⟩ := hanswers.unique hanswers'
  exact ⟨hsame, hpending⟩

/-- A SETUP in session 7 that asks for datagrams to port 5000 and its successor. -/
theorem setup_answers_what_it_sets_up_lone_port :
    let r : Request :=
      { method := .setup
        uri := "rtsp://h/audio"
        headers := { entries :=
          [⟨"Transport", "rtp/avp;mode=play;client_port= 5000"⟩, ⟨"Session", "7;timeout=60"⟩] } }
    let p : Player :=
      { peer := { host := .v4 127 0 0 1, port := 9 }
        media := { audio := some [1, 2, 3] }
        description := ""
        random := { word := fun _ => 5 } }
    r.method = .setup ∧ p.datagramsAvailable = true ∧
      ({} : Link).connection.behaviour.Reliable ∧
      ∃ response q after,
        controller.dispatch r p { peer := p.peer, cseq := r.cseq, link := {} } =
          (.ok response.encode.length, q, { peer := p.peer, cseq := r.cseq, link := after }) ∧
        response.status = 200 ∧ Granted p r response q := by
  intro r p
  refine ⟨rfl, rfl, Behaviour.reliable_accepting, ?_⟩
  obtain ⟨response, q, after, hdispatch, -, -, hgranted, -, hcases⟩ :=
    setup_answers_what_it_sets_up p r rfl rfl p.peer {} Behaviour.reliable_accepting
  have hasked : (r.header? "Transport").bind TransportHeader.read? =
      some { lower := .udp, ports := some ⟨5000, 5001⟩ } := by decide +kernel
  have hnames : Names r 7 := sessionOf?_eq_ok_iff.1 (by decide +kernel)
  have hpasses (status : UInt16) (reason : String) : ¬ Refused p r status reason := by
    intro hrefused
    cases hrefused with
    | unserved hhas => exact absurd hhas (by decide)
    | session _ _ hnone => exact hnone 7 hnames
    | absent _ _ h =>
      rw [h] at hasked
      cases hasked
    | malformed _ _ hvalue h =>
      rw [hvalue, Option.bind_some, h] at hasked
      cases hasked
    | noChannels _ _ hvalue hread hlower =>
      rw [hvalue, Option.bind_some, hread] at hasked
      cases hasked
      cases hlower
    | noPorts _ _ hvalue hread _ h =>
      rw [hvalue, Option.bind_some, hread] at hasked
      cases hasked
      cases h
  have hstatus : response.status = 200 := hcases.resolve_right fun ⟨status, reason, hrefused⟩ =>
    hpasses status reason hrefused
  exact ⟨response, q, after, hdispatch, hstatus, hgranted hstatus⟩

end Player

end RealTimeStreaming.Demo
