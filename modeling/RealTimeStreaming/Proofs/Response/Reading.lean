import RealTimeStreaming.Proofs.Text.Encoding
import RealTimeStreaming.Response
import RealTimeStreaming.Text.Blank

/-! Reading responses back. A response ends at its first empty line and the announced length of
its body behind that, so a client finds its end, and the response itself, if its texts stay on
their lines and no header of its own announces a body. -/

namespace RealTimeStreaming

/-! ### Reading lines -/

/-- The bytes before the first line end, and those behind it. -/
def cutLine? : Bytes → Option (Bytes × Bytes)
  | [] => none
  | [_] => none
  | a :: b :: rest =>
    if a = Octet.carriageReturn ∧ b = Octet.lineFeed then some ([], rest)
    else (cutLine? (b :: rest)).map fun (line, rest) => (a :: line, rest)

theorem length_lt_of_cutLine? {bytes line rest : Bytes} (h : cutLine? bytes = some (line, rest)) :
    rest.length < bytes.length := by
  fun_induction cutLine? bytes generalizing line with
  | case1 => cases h
  | case2 => cases h
  | case3 a b bytes hend =>
    cases h
    simp only [List.length_cons]
    omega
  | case4 a b bytes hne ih =>
    rw [Option.map_eq_some_iff] at h
    obtain ⟨⟨line', rest'⟩, hcut, heq⟩ := h
    cases heq
    exact Nat.lt_succ_of_lt (ih hcut)

/-- The lines up to the first empty one, and the bytes behind that. -/
def cutHead? (bytes : Bytes) : Option (List Bytes × Bytes) :=
  match h : cutLine? bytes with
  | none => none
  | some (line, rest) =>
    have := length_lt_of_cutLine? h
    if line = [] then some ([], rest)
    else (cutHead? rest).map fun (lines, rest) => (line :: lines, rest)
termination_by bytes.length

theorem cutHead?_of_nil {bytes rest : Bytes} (h : cutLine? bytes = some ([], rest)) :
    cutHead? bytes = some ([], rest) := by
  rw [cutHead?]
  split
  · rename_i hnone
    rw [h] at hnone
    cases hnone
  · rename_i line rest' hsome
    rw [h] at hsome
    cases hsome
    rfl

theorem cutHead?_of_ne_nil {bytes line rest : Bytes} (h : cutLine? bytes = some (line, rest))
    (hne : line ≠ []) :
    cutHead? bytes = (cutHead? rest).map fun (lines, rest) => (line :: lines, rest) := by
  rw [cutHead?]
  split
  · rename_i hnone
    rw [h] at hnone
    cases hnone
  · rename_i line' rest' hsome
    rw [h] at hsome
    cases hsome
    exact if_neg hne

def crlf : Bytes := [Octet.carriageReturn, Octet.lineFeed]

theorem cutLine?_append {line : Bytes} (h : Octet.carriageReturn ∉ line) (rest : Bytes) :
    cutLine? (line ++ (crlf ++ rest)) = some (line, rest) := by
  induction line with
  | nil => simp [crlf, cutLine?]
  | cons a line ih =>
    rw [List.mem_cons, not_or] at h
    obtain ⟨b, tail, htail⟩ : ∃ b tail, line ++ (crlf ++ rest) = b :: tail := by
      cases line <;> exact ⟨_, _, rfl⟩
    have hrest := ih h.2
    rw [htail] at hrest
    rw [List.cons_append, htail, cutLine?, if_neg fun hend => h.1 hend.1.symm, hrest]
    rfl

theorem cutHead?_append {lines : List Bytes}
    (h : ∀ line ∈ lines, line ≠ [] ∧ Octet.carriageReturn ∉ line) (rest : Bytes) :
    cutHead? ((lines.map (· ++ crlf)).flatten ++ (crlf ++ rest)) = some (lines, rest) := by
  induction lines with
  | nil =>
    have hcut : cutLine? (crlf ++ rest) = some ([], rest) :=
      cutLine?_append List.not_mem_nil rest
    exact cutHead?_of_nil hcut
  | cons line lines ih =>
    obtain ⟨hne, hreturn⟩ := h line List.mem_cons_self
    rw [List.map_cons, List.flatten_cons, List.append_assoc, List.append_assoc,
      cutHead?_of_ne_nil (cutLine?_append hreturn _) hne,
      ih fun l hl => h l (List.mem_cons_of_mem line hl)]
    rfl

/-- Lines with their ends are split at the line feeds. -/
theorem splitOn_lines {lines : List Bytes} (h : ∀ line ∈ lines, Octet.lineFeed ∉ line)
    (rest : Bytes) :
    ((lines.map (· ++ crlf)).flatten ++ rest).splitOn Octet.lineFeed =
      lines.map (· ++ [Octet.carriageReturn]) ++ rest.splitOn Octet.lineFeed := by
  have hending : Octet.lineFeed ∉ [Octet.carriageReturn] := by decide
  exact Text.splitOn_ended hending h rest

theorem mapM_map_of_forall {α β : Type} {f : α → β} {g : β → Option α} {l : List α}
    (h : ∀ a ∈ l, g (f a) = some a) : (l.map f).mapM g = some l := by
  induction l with
  | nil => rfl
  | cons a l ih =>
    rw [List.map_cons, List.mapM_cons, h a List.mem_cons_self,
      ih fun b hb => h b (List.mem_cons_of_mem a hb)]
    rfl

/-! ### Reading responses -/

namespace Response

/-- The status code and the reason in a status line. -/
def statusOfLine? (line : Bytes) : Option (UInt16 × String) := do
  let rest ← Text.afterStart? (Text.utf8 "RTSP/1.0 ") line
  let (code, reason) ← Text.cutAt Octet.space rest
  let code ← Text.ofUtf8? code
  let status ← (Text.readUInt16 code.toList).toOption
  let reason ← Text.ofUtf8? reason
  return (status, reason)

/-- The name and the value in a header line. -/
def headerOfLine? (line : Bytes) : Option (String × String) := do
  let (name, after) ← Text.cutAt Octet.colon line
  let value ← Text.afterStart? [Octet.space] after
  let name ← Text.ofUtf8? name
  let value ← Text.ofUtf8? value
  return (name, value)

def lengthName : String := "Content-Length"

/-- The header that announces the body is not one of the response's own. -/
def announcesBody (header : String × String) : Bool :=
  Text.sameUpToCase header.1 lengthName

/-- The response at the start and the bytes behind it. -/
def cut? (bytes : Bytes) : Option (Response × Bytes) := do
  let (lines, rest) ← cutHead? bytes
  let (status, reason) ← lines.head?.bind statusOfLine?
  let headers ← lines.tail.mapM headerOfLine?
  let own := headers.filter (!announcesBody ·)
  match headers.find? announcesBody with
  | none => some ({ status, reason, headers := own }, rest)
  | some (_, value) =>
    let length ← (Text.readNat rest.length value.toList).toOption
    some ({ status, reason, headers := own, body := some (rest.take length) }, rest.drop length)

/-! ### Reading back what was written -/

/-- A text that fits on one line. -/
def OneLine (s : String) : Prop :=
  '\r' ∉ s.toList ∧ '\n' ∉ s.toList

/-- A response whose texts stay on their lines and whose headers can be told from one another
and from the one that announces the body. -/
structure Plain (r : Response) : Prop where
  reason : OneLine r.reason
  names : ∀ header ∈ r.headers, OneLine header.1 ∧ ':' ∉ header.1.toList
  values : ∀ header ∈ r.headers, OneLine header.2
  own : ∀ header ∈ r.headers, announcesBody header = false

instance (s : String) : Decidable (OneLine s) :=
  inferInstanceAs (Decidable ('\r' ∉ s.toList ∧ '\n' ∉ s.toList))

theorem plain_iff {r : Response} : r.Plain ↔ OneLine r.reason ∧
    (∀ header ∈ r.headers, OneLine header.1 ∧ ':' ∉ header.1.toList) ∧
    (∀ header ∈ r.headers, OneLine header.2) ∧
    ∀ header ∈ r.headers, announcesBody header = false :=
  ⟨fun ⟨reason, names, values, own⟩ => ⟨reason, names, values, own⟩,
    fun ⟨reason, names, values, own⟩ => ⟨reason, names, values, own⟩⟩

instance (r : Response) : Decidable r.Plain :=
  decidable_of_iff _ plain_iff.symm

/-- The headers with the one that announces the body. -/
def allHeaders (r : Response) : List (String × String) :=
  r.headers ++
  match r.body with
  | some body => [(lengthName, toString body.length)]
  | none => []

def statusText (r : Response) : String :=
  s!"RTSP/1.0 {r.status} {r.reason}"

def headerText (header : String × String) : String :=
  header.1 ++ ": " ++ header.2

/-- The lines of a response without their ends. -/
def lines (r : Response) : List Bytes :=
  Text.utf8 r.statusText :: r.allHeaders.map fun header => Text.utf8 (headerText header)

theorem statusText_eq (r : Response) :
    r.statusText = "RTSP/1.0 " ++ (toString r.status.toNat ++ (" " ++ r.reason)) := by
  rw [← String.append_assoc, ← String.append_assoc]
  rfl

theorem headerLines_eq (r : Response) :
    r.headerLines = r.allHeaders.map fun header => headerText header ++ Response.lineEnd := by
  unfold headerLines allHeaders
  cases r.body with
  | none => simp only [List.append_nil]; rfl
  | some body => rw [List.map_append]; rfl

theorem encode_eq (r : Response) :
    r.encode = (r.lines.map (· ++ crlf)).flatten ++ (crlf ++ r.body.getD []) := by
  have hstatus : r.statusLine = r.statusText ++ lineEnd := rfl
  have hend : Text.utf8 lineEnd = crlf := by decide
  rw [encode, hstatus, headerLines_eq, Text.utf8_append, Text.utf8_append, Text.utf8_append,
    Text.utf8_join, hend, lines, List.map_cons, List.flatten_cons, List.map_map, List.map_map]
  simp only [Function.comp_def, Text.utf8_append, hend, List.append_assoc]

theorem encode_eq_cons (r : Response) : ∃ tail, r.encode = 0x52 :: tail := by
  have hversion : Text.utf8 "RTSP/1.0 " = 0x52 :: Text.utf8 "TSP/1.0 " := by decide
  rw [encode_eq, lines, List.map_cons, List.flatten_cons, statusText_eq, Text.utf8_append, hversion]
  exact ⟨_, rfl⟩

theorem encode_ne_nil (r : Response) : r.encode ≠ [] := by
  obtain ⟨tail, htail⟩ := r.encode_eq_cons
  rw [htail]
  exact List.cons_ne_nil _ _

theorem carriageReturn_notMem {s : String} (h : '\r' ∉ s.toList) :
    Octet.carriageReturn ∉ Text.utf8 s := fun hm =>
  h (Text.mem_of_mem_utf8 hm (by decide))

theorem statusOfLine?_statusText (r : Response) :
    statusOfLine? (Text.utf8 r.statusText) = some (r.status, r.reason) := by
  have htext : Text.utf8 r.statusText = Text.utf8 "RTSP/1.0 " ++
      (Text.utf8 (toString r.status.toNat) ++ Octet.space :: Text.utf8 r.reason) := by
    have hsep : Text.utf8 " " = [Octet.space] := by decide
    rw [statusText_eq, Text.utf8_append, Text.utf8_append, Text.utf8_append, hsep]
    rfl
  have hspace : Octet.space ∉ Text.utf8 (toString r.status.toNat) := by
    intro hm
    have hdigit := Text.isDigit_of_mem_toString (Text.mem_of_mem_utf8 hm (by decide))
    exact absurd hdigit (by decide)
  have hcode : Text.readUInt16 (toString r.status.toNat).toList = .ok r.status := by
    have hlt := r.status.toNat_lt
    rw [Text.readUInt16, Text.readNat_toString (by simp only [UInt16.size]; omega), Except.map,
      Nat.toUInt16_eq, UInt16.ofNat_toNat]
  simp only [statusOfLine?, htext, Text.afterStart?_eq_some.2 rfl, Text.cutAt_append hspace,
    Text.ofUtf8?_utf8, hcode, Option.bind_eq_bind, Option.bind_some]
  rfl

theorem headerOfLine?_headerText {header : String × String} (h : ':' ∉ header.1.toList) :
    headerOfLine? (Text.utf8 (headerText header)) = some header := by
  have htext : Text.utf8 (headerText header) =
      Text.utf8 header.1 ++ Octet.colon :: ([Octet.space] ++ Text.utf8 header.2) := by
    have hsep : Text.utf8 ": " = [Octet.colon, Octet.space] := by decide
    rw [headerText, Text.utf8_append, Text.utf8_append, hsep, List.append_assoc]
    rfl
  have hcolon : Octet.colon ∉ Text.utf8 header.1 := fun hm =>
    h (Text.mem_of_mem_utf8 hm (by decide))
  simp only [headerOfLine?, htext, Text.cutAt_append hcolon, Text.afterStart?_eq_some.2 rfl,
    Text.ofUtf8?_utf8, Option.bind_eq_bind, Option.bind_some]
  rfl

theorem announcesBody_lengthName (value : String) : announcesBody (lengthName, value) = true :=
  beq_self_eq_true _

theorem forall_allHeaders {r : Response} {p : String × String → Prop}
    (hown : ∀ header ∈ r.headers, p header) (hbody : ∀ n : Nat, p (lengthName, toString n)) :
    ∀ header ∈ r.allHeaders, p header := by
  intro header hm
  rw [allHeaders, List.mem_append] at hm
  rcases hm with hm | hm
  · exact hown header hm
  · split at hm
    · rw [List.mem_singleton] at hm
      rw [hm]
      exact hbody _
    · cases hm

namespace Plain

variable {r : Response}

theorem colon_notMem (h : r.Plain) : ∀ header ∈ r.allHeaders, ':' ∉ header.1.toList :=
  forall_allHeaders (fun header hm => (h.names header hm).2)
    fun _ => (by decide : ':' ∉ lengthName.toList)

theorem return_notMem (h : r.Plain) :
    ∀ header ∈ r.allHeaders, '\r' ∉ (headerText header).toList := by
  refine forall_allHeaders (fun header hm => ?_) fun n => ?_
  · simp only [headerText, String.toList_append, List.mem_append, not_or]
    exact ⟨⟨(h.names header hm).1.1, by decide⟩, (h.values header hm).1⟩
  · simp only [headerText, String.toList_append, List.mem_append, not_or]
    refine ⟨⟨by decide, by decide⟩, fun hm => ?_⟩
    exact absurd (Text.isDigit_of_mem_toString hm) (by decide)

theorem of_mem_lines (h : r.Plain) {line : Bytes} (hm : line ∈ r.lines) :
    line ≠ [] ∧ Octet.carriageReturn ∉ line := by
  rw [lines, List.mem_cons] at hm
  rcases hm with rfl | hm
  · constructor
    · rw [statusText_eq, Text.utf8_append]
      exact List.append_ne_nil_of_left_ne_nil (by decide) _
    · apply carriageReturn_notMem
      simp only [statusText_eq, String.toList_append, List.mem_append, not_or]
      refine ⟨by decide, fun hm => ?_, by decide, h.reason.1⟩
      exact absurd (Text.isDigit_of_mem_toString hm) (by decide)
  · obtain ⟨header, hheader, rfl⟩ := List.mem_map.1 hm
    constructor
    · rw [headerText, Text.utf8_append, Text.utf8_append]
      exact List.append_ne_nil_of_left_ne_nil
        (List.append_ne_nil_of_right_ne_nil _ (by decide)) _
    · exact carriageReturn_notMem (h.return_notMem header hheader)

theorem cutHead?_encode_append (h : r.Plain) (rest : Bytes) :
    cutHead? (r.encode ++ rest) = some (r.lines, r.body.getD [] ++ rest) := by
  rw [encode_eq, List.append_assoc, List.append_assoc]
  exact cutHead?_append (fun line hm => h.of_mem_lines hm) _

theorem mapM_headerOfLine? (h : r.Plain) :
    r.lines.tail.mapM headerOfLine? = some r.allHeaders :=
  mapM_map_of_forall fun header hm => headerOfLine?_headerText (h.colon_notMem header hm)

theorem filter_allHeaders (h : r.Plain) :
    r.allHeaders.filter (!announcesBody ·) = r.headers := by
  have hown : r.headers.filter (!announcesBody ·) = r.headers := by
    rw [List.filter_eq_self]
    intro header hm
    rw [h.own header hm]
    rfl
  rw [allHeaders, List.filter_append, hown]
  cases r.body with
  | none => exact List.append_nil _
  | some body =>
    have hannounced := announcesBody_lengthName (toString body.length)
    simp only [List.filter_cons, hannounced, Bool.not_true, Bool.false_eq_true, if_false,
      List.filter_nil, List.append_nil]

theorem find?_allHeaders (h : r.Plain) :
    r.allHeaders.find? announcesBody =
      r.body.map fun body => (lengthName, toString body.length) := by
  have hnone : r.headers.find? announcesBody = none := by
    rw [List.find?_eq_none]
    intro header hm
    rw [h.own header hm]
    exact Bool.false_ne_true
  rw [allHeaders, List.find?_append, hnone, Option.none_or]
  cases r.body with
  | none => rfl
  | some body => exact List.find?_cons_of_pos (announcesBody_lengthName _)

/-- The response is read back, whatever stands behind it. -/
theorem cut?_encode_append (h : r.Plain) (rest : Bytes) :
    cut? (r.encode ++ rest) = some (r, rest) := by
  have hstatus : r.lines.head?.bind statusOfLine? = some (r.status, r.reason) :=
    statusOfLine?_statusText r
  rw [cut?, h.cutHead?_encode_append]
  simp only [Option.bind_eq_bind, Option.bind_some, hstatus, h.mapM_headerOfLine?,
    h.filter_allHeaders, h.find?_allHeaders]
  obtain ⟨status, reason, headers, body⟩ := r
  cases body with
  | none => rfl
  | some body =>
    have hlength : Text.readNat (body ++ rest).length (toString body.length).toList =
        .ok body.length := Text.readNat_toString (by rw [List.length_append]; omega)
    simp only [Option.map_some, Option.getD_some, hlength, Except.toOption, Option.bind_some,
      List.take_left, List.drop_left]

end Plain

end Response

end RealTimeStreaming
