import RealTimeStreaming.Proofs.H264.PictureClock
import RealTimeStreaming.Proofs.H264.Splitting
import RealTimeStreaming.Proofs.Rtp.Steady

/-! A byte stream that is sent piece by piece. If every piece begins with a start code, and all
with codes of one width, then no unit is cut in two: the codes of the whole are the codes of the
pieces, whatever zero bytes a piece ends in. So the pieces go out as the whole would. -/

namespace RealTimeStreaming.H264

/-! ### Units of joined pieces -/

section

variable {code : StartCode} {a b : Bytes} {pieces : List Bytes}

theorem StartCode.joined_append (stretches more : List Bytes) :
    code.joined (stretches ++ more) = code.joined stretches ++ code.joined more :=
  List.flatMap_append

/-- What begins with a code is all stretches behind codes. -/
theorem exists_joined (h : code.bytes <+: a) :
    ∃ stretches, a = code.joined stretches ∧ ∀ stretch ∈ stretches, ¬ code.bytes <:+: stretch := by
  obtain ⟨after, rfl⟩ := h
  obtain ⟨first, more, rfl, hfree⟩ := exists_stretches code after
  exact ⟨first :: more, (StartCode.joined_cons first).symm, hfree⟩

theorem splitUnits_append (ha : code.bytes <+: a) (hb : code.bytes <+: b) :
    splitUnits (a ++ b) = splitUnits a ++ splitUnits b := by
  obtain ⟨stretches, rfl, hfree⟩ := exists_joined ha
  obtain ⟨more, rfl, hfree'⟩ := exists_joined hb
  have hall : ∀ stretch ∈ stretches ++ more, ¬ code.bytes <:+: stretch :=
    List.forall_mem_append.2 ⟨hfree, hfree'⟩
  rw [← StartCode.joined_append, splitUnits_joined hall, splitUnits_joined hfree,
    splitUnits_joined hfree', List.filterMap_append]

theorem splitUnits_flatten (h : ∀ piece ∈ pieces, code.bytes <+: piece) :
    splitUnits pieces.flatten = pieces.flatMap splitUnits := by
  induction pieces with
  | nil => exact UnitReader.units_of_rest_eq_nil rfl
  | cons piece pieces ih =>
    rw [List.forall_mem_cons] at h
    rw [List.flatten_cons, List.flatMap_cons]
    cases pieces with
    | nil => simp
    | cons second more =>
      have hrest : code.bytes <+: (second :: more).flatten :=
        (h.2 second List.mem_cons_self).trans (List.prefix_append second more.flatten)
      rw [splitUnits_append h.1 hrest, ih h.2]

/-- The end of one piece and the start of the next may hold a code of the other width. -/
example :
    (splitUnits ([0, 0, 1, 9, 0] ++ [0, 0, 1] ++ [0, 0, 1, 7])).map NalUnit.bytes =
      [[9, 0], [7]] := by
  decide +kernel

end

/-! ### Units over a link that never fails -/

/-- No packet of the unit is longer than the limit. -/
def Fits (maxUnitSize limit : Nat) (unit : NalUnit) : Prop :=
  ∀ p ∈ packetize maxUnitSize unit, Rtp.Header.length + p.bytes.length ≤ limit

instance (maxUnitSize limit : Nat) (unit : NalUnit) : Decidable (Fits maxUnitSize limit unit) :=
  inferInstanceAs (Decidable (∀ p ∈ packetize maxUnitSize unit, _))

theorem NalSender.send_of_steady {s : NalSender} {link : Link} {limit : Nat}
    (h : s.rtp.delivery.Steady limit link) {unit : NalUnit} (hunit : Fits s.maxUnitSize limit unit)
    (timestamp : Rtp.Timestamp) :
    ∃ n t after, send timestamp unit (s, link) = (.ok n, t, after) ∧
      t.rtp.delivery = s.rtp.delivery ∧ t.maxUnitSize = s.maxUnitSize ∧
      s.rtp.delivery.Steady limit after := by
  have hfits : ∀ x ∈ sendings s.maxUnitSize timestamp unit, x.size ≤ limit :=
    List.forall_mem_map.2 hunit
  obtain ⟨n, after, hsent, hafter⟩ := Rtp.Sender.sendEach_of_steady h hfits
  let count := (sendings s.maxUnitSize timestamp unit).length
  exact ⟨n, { s with rtp := s.rtp.advance count }, after, by rw [send_eq, hsent], rfl, rfl, hafter⟩

namespace VideoStream

open Rtp (sendEach history leaves)

variable {s : VideoStream} {link : Link} {limit : Nat} {units : List NalUnit}

/-- The stream still cuts units as it did, and its delivery still has a steady link. -/
def StaysSteady (d : Delivery) (maxUnitSize limit : Nat) (state : VideoStream × Link) : Prop :=
  state.1.nal.rtp.delivery = d ∧ state.1.nal.maxUnitSize = maxUnitSize ∧ d.Steady limit state.2

theorem sendEach_of_steady (h : s.nal.rtp.delivery.Steady limit link)
    (hunits : ∀ unit ∈ units, Fits s.nal.maxUnitSize limit unit) :
    ∃ n after, sendEach sendUnit units (s, link) = (.ok n, after) := by
  let Stays := StaysSteady s.nal.rtp.delivery s.nal.maxUnitSize limit
  have hsend : ∀ unit ∈ units, ∀ state, Stays state →
      ∃ n next, sendUnit unit state = (.ok n, next) ∧ Stays next := by
    rintro unit hmem ⟨t, link⟩ ⟨hd, hm, hsteady⟩
    have hunit := hunits unit hmem
    rw [← hd] at hsteady
    rw [← hm] at hunit
    obtain ⟨n, nal, after, hsent, hd', hm', hafter⟩ :=
      NalSender.send_of_steady hsteady hunit (.raw (t.stampFor unit))
    refine ⟨n, ({ t with nal, timestamp := t.stampFor unit }, after), ?_, hd'.trans hd,
      hm'.trans hm, hd ▸ hafter⟩
    rw [sendUnit_eq, hsent]
  have hstart : Stays (s, link) := ⟨rfl, rfl, h⟩
  obtain ⟨n, after, hsent, -⟩ := Rtp.sendEach_of_invariant Stays hsend hstart
  exact ⟨n, after, hsent⟩

/-! ### Pieces and the whole -/

/-- Pieces that all begin with a start code of one width, sent one after the other until one fails,
do what the whole stream does in one call, wherever it fails. Over a link that does not fail, no
call fails: the counts of the pieces add up to that of the whole, and the stream and the link end
as the whole leaves them. -/
theorem pieces_send_whole (code : StartCode) (pieces : List Bytes)
    (hpieces : ∀ piece ∈ pieces, code.bytes <+: piece) (s : VideoStream) (link : Link) :
    sendEach sendStream pieces (s, link) = sendStream pieces.flatten (s, link) ∧
    ∀ limit, s.nal.rtp.delivery.Steady limit link →
      (∀ unit ∈ splitUnits pieces.flatten, Fits s.nal.maxUnitSize limit unit) →
      ∃ counts : List Nat,
        (history sendStream pieces (s, link)).map (·.result) = counts.map .ok ∧
        sendStream pieces.flatten (s, link) =
          (.ok counts.sum, leaves sendStream pieces (s, link)) := by
  have hwhole : sendEach sendStream pieces (s, link) = sendStream pieces.flatten (s, link) := by
    rw [sendStream, splitUnits_flatten hpieces]
    exact Rtp.sendEach_flatMap splitUnits pieces (s, link)
  refine ⟨hwhole, fun limit hsteady hfits => ?_⟩
  obtain ⟨n, after, hsent⟩ := sendEach_of_steady hsteady hfits
  rw [← sendStream] at hsent
  obtain ⟨counts, hresults, rfl, rfl⟩ := Rtp.history_of_sendEach (hwhole.trans hsent)
  exact ⟨counts, hresults, hsent⟩

/-- A delimiter with a zero byte behind it, a piece that is nothing but a code, and a picture in
three fragments with a bare code at its end; as frames on a connection and as datagrams. -/
theorem pieces_send_whole_three_pieces :
    let pieces : List Bytes :=
      [[0, 0, 1, 9, 0xF0, 0], [0, 0, 1], [0, 0, 1, 0x65, 1, 2, 3, 0, 0, 1]]
    let destination : Endpoint := { host := .v4 127 0 0 1, port := 9000 }
    let stream (delivery : Delivery) : VideoStream :=
      { nal :=
          { rtp :=
              { delivery, payloadType := 96, clockRate := 90000, ssrc := 7, sequence := 65534,
                payloadType_lt := by decide }
            maxUnitSize := 3
            headLength_lt := by decide }
        frameStep := 3600 }
    let overFrames := (stream (.interleaved 2), ({} : Link))
    let overDatagrams := (stream (.datagrams destination), ({ datagrams := .connected } : Link))
    (∀ piece ∈ pieces, StartCode.three.bytes <+: piece) ∧
    (∀ unit ∈ splitUnits pieces.flatten, Fits 3 65507 unit) ∧
    (Delivery.interleaved 2).Steady 65507 overFrames.2 ∧
    (Delivery.datagrams destination).Steady 65507 overDatagrams.2 ∧
    sendStream pieces.flatten overFrames = (.ok 76, leaves sendStream pieces overFrames) ∧
    sendStream pieces.flatten overDatagrams = (.ok 60, leaves sendStream pieces overDatagrams) := by
  intro pieces destination stream overFrames overDatagrams
  have hpieces : ∀ piece ∈ pieces, StartCode.three.bytes <+: piece := by decide
  have hfits : ∀ unit ∈ splitUnits pieces.flatten, Fits 3 65507 unit := by decide +kernel
  have hframes : (Delivery.interleaved 2).Steady 65507 overFrames.2 :=
    Delivery.steady_interleaved Behaviour.reliable_accepting (by decide) 2
  have hdatagrams : (Delivery.datagrams destination).Steady 65507 overDatagrams.2 :=
    Delivery.steady_datagrams fun _ _ hlength => if_neg (Nat.not_lt_of_ge hlength)
  refine ⟨hpieces, hfits, hframes, hdatagrams, ?_, ?_⟩
  · obtain ⟨counts, -, hsent⟩ :=
      (pieces_send_whole .three pieces hpieces overFrames.1 overFrames.2).2 65507 hframes hfits
    have hcount : (sendStream pieces.flatten overFrames).1 = .ok 76 := by decide +kernel
    rw [hsent] at hcount
    exact hsent.trans (congrArg (·, _) hcount)
  · obtain ⟨counts, -, hsent⟩ :=
      (pieces_send_whole .three pieces hpieces overDatagrams.1 overDatagrams.2).2 65507 hdatagrams
        hfits
    have hcount : (sendStream pieces.flatten overDatagrams).1 = .ok 60 := by decide +kernel
    rw [hsent] at hcount
    exact hsent.trans (congrArg (·, _) hcount)

end VideoStream

end RealTimeStreaming.H264
