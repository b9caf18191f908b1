import RealTimeStreaming.Proofs.Request.Widening
import RealTimeStreaming.Proofs.Session.Rejection

/-! Requests that only the limits refuse. What a parser completes under wider limits and with
more room for headers it refuses for size, and the server says so, with one exception: a body
that is announced as longer than allowed is refused like a length that is no number. -/

namespace RealTimeStreaming

theorem ParseError.status_of_isCapacity {e : ParseError} (h : e.isCapacity = true) :
    e.refusal.1 = 413 ∨ e.refusal.1 = 414 := by
  cases e with
  | tooLong kind limit =>
    cases kind with
    | requestUri => exact .inr rfl
    | _ => exact .inl rfl
  | headersFull => exact .inl rfl
  | _ => cases h

namespace Parser

/-- A request that is complete under wider limits fails for size exactly if the limit of the body
is not all that stands in its way. If it is, the parser fails with the length that was announced,
and the answer is that to a malformed request. -/
theorem isCapacity_iff_of_completes_wider {narrow wide : Limits} {capacity room n : Nat} {x : Bytes}
    {e : ParseError} (hle : narrow.Within wide) (hroom : capacity ≤ room)
    (hfails : (({ limits := narrow } : Parser).parse (.blank capacity) x).1.result = .error e)
    (hcompletes :
      (({ limits := wide } : Parser).parse (.blank room) x).1.result = .ok ⟨n, true⟩) :
    let strict := ({ limits := narrow } : Parser).parse (.blank capacity) x
    let between := ({ limits := { narrow with body := wide.body } } : Parser).parse
      (.blank capacity) x
    let ample := ({ limits := wide } : Parser).parse (.blank room) x
    let status := (Connection.rejection e strict.2).status
    (e.isCapacity = true ↔ between.1.result ≠ .ok ⟨n, true⟩) ∧
      (e.isCapacity = true → status = 413 ∨ status = 414) ∧
      (e.isCapacity = false → status = 400 ∧ narrow.body.toNat < ample.2.body.length ∧
        ∃ text, e = .contentLength text ∧ Text.Decimal text.toList ample.2.body.length) := by
  intro strict between ample status
  have hstrict : strict.1.stage = .failed e := result_eq_error_iff.1 hfails
  have hdone : ample.1.stage = .done := (result_eq_complete_iff.1 hcompletes).1
  have hstatus : status = e.refusal.1 := congrArg Response.status (rejection_eq e strict.2)
  have hwithin : Limits.Within { narrow with body := wide.body } wide :=
    ⟨hle.method, hle.uri, hle.headerLine, Nat.le_refl _⟩
  have hothers := parse_of_within hwithin rfl hroom x
  obtain hsame | ⟨text, k, hk, hlt, hlength, hgoes⟩ := parse_of_body_le hle.body capacity x
  · -- the same error without the limit of the body, so the others are what it is about
    have hbetween : between.1.stage = .failed e := by
      rw [show between = _ from hsame]
      exact hstrict
    have hcapacity : e.isCapacity = true := by
      obtain hsame | ⟨e', hfails', he'⟩ | ⟨-, e', hfails'⟩ := hothers
      · rw [show ample = _ from hsame] at hdone
        cases hbetween.symm.trans hdone
      · cases hbetween.symm.trans hfails'
        exact he'
      · cases hdone.symm.trans hfails'
    refine ⟨iff_of_true hcapacity fun h => ?_, fun h => ?_, fun h => ?_⟩
    · cases (result_eq_complete_iff.1 h).1.symm.trans hbetween
    · rw [hstatus]
      exact ParseError.status_of_isCapacity h
    · rw [hcapacity] at h
      cases h
  · cases hstrict.symm.trans hlength
    obtain hsame | ⟨e', hfails', -⟩ | ⟨-, e', hfails'⟩ := hothers
    · have hresult : between.1.result = .ok ⟨n, true⟩ := by
        have hstage : ample.1.result = between.1.result := by
          rw [show ample = _ from hsame]
          rfl
        exact hstage.symm.trans hcompletes
      have hbody : ample.2.body = between.2.body := by
        rw [show ample = _ from hsame]
        rfl
      obtain hbody' | ⟨-, hbody'⟩ := hgoes
      · cases hbody'.symm.trans (result_eq_complete_iff.1 hresult).1
      · refine ⟨iff_of_false Bool.false_ne_true (not_not_intro hresult), fun h => ?_,
          fun _ => ⟨hstatus, ?_, text, rfl, ?_⟩⟩
        · cases h
        · rw [hbody, hbody']
          exact hlt
        · rw [hbody, hbody']
          exact hk
    · obtain hbody | ⟨hbody, -⟩ := hgoes
      · cases hbody.symm.trans hfails'
      · cases hbody.symm.trans hfails'
    · cases hdone.symm.trans hfails'

/-- A target and a body that are both too long: the target is what the request fails with. -/
theorem isCapacity_of_long_target :
    let narrow : Limits := { uri := 3, body := 1 }
    let x := Text.utf8 "PLAY /ab RTSP/1.0\r\nCSeq: 1\r\nContent-Length: 2\r\n\r\nhi"
    let strict := ({ limits := narrow } : Parser).parse (.blank 2) x
    narrow.Within {} ∧ strict.1.result = .error (.tooLong .requestUri 3) ∧
      (({} : Parser).parse (.blank 32) x).1.result = .ok ⟨x.length, true⟩ ∧
      ((Connection.rejection (.tooLong .requestUri 3) strict.2).status = 413 ∨
        (Connection.rejection (.tooLong .requestUri 3) strict.2).status = 414) := by
  intro narrow x strict
  have hle : narrow.Within {} := ⟨by decide, by decide, by decide, by decide⟩
  have hfails : strict.1.result = .error (.tooLong .requestUri 3) := by decide +kernel
  have hcompletes : (({} : Parser).parse (.blank 32) x).1.result = .ok ⟨x.length, true⟩ := by
    decide +kernel
  have hroom : 2 ≤ 32 := by decide
  have h := isCapacity_iff_of_completes_wider hle hroom hfails hcompletes
  exact ⟨hle, hfails, hcompletes, h.2.1 rfl⟩

/-- A body of two bytes where one is allowed: complete under the wider limit, but refused as
malformed under the narrow one. -/
theorem long_body_is_refused_as_malformed :
    let narrow : Limits := { body := 1 }
    let x := Text.utf8 "PLAY * RTSP/1.0\r\nCSeq: 1\r\nContent-Length: 2\r\n\r\nhi"
    let strict := ({ limits := narrow } : Parser).parse (.blank 32) x
    narrow.Within {} ∧ strict.1.result = .error (.contentLength "2") ∧
      (({} : Parser).parse (.blank 32) x).1.result = .ok ⟨x.length, true⟩ ∧
      (ParseError.contentLength "2").isCapacity = false ∧
      (Connection.rejection (.contentLength "2") strict.2).status = 400 := by
  intro narrow x strict
  exact ⟨⟨by decide, by decide, by decide, by decide⟩, by decide +kernel, by decide +kernel, rfl,
    by decide +kernel⟩

end Parser

end RealTimeStreaming
