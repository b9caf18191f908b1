import Mathlib.Data.List.TakeWhile
import Mathlib.Data.Nat.Digits.Defs
import Mathlib.Tactic.Ring
import RealTimeStreaming.Text.Number
import RealTimeStreaming.Text.Trim

/-! What trimming, cutting and number reading find, said by how the text is put together: a
trimmed text stands between runs of the trimmed class, the parts of a cut stand around the
first separator, and a number is read exactly from the decimal texts of its value. -/

namespace RealTimeStreaming.Text

variable {α : Type} {p : α → Bool}

/-! ### Runs at the start -/

theorem takeWhile_eq_nil {l : List α} (h : ∀ a ∈ l.head?, p a = false) : l.takeWhile p = [] := by
  cases l with
  | nil => rfl
  | cons a l => simp [h a (by simp)]

theorem dropWhile_eq_self {l : List α} (h : ∀ a ∈ l.head?, p a = false) : l.dropWhile p = l := by
  cases l with
  | nil => rfl
  | cons a l => simp [h a (by simp)]

/-- A run of the class ends where the first item outside stands. -/
theorem takeWhile_run {run rest : List α} (hr : ∀ a ∈ run, p a)
    (h : ∀ a ∈ rest.head?, p a = false) : (run ++ rest).takeWhile p = run := by
  rw [List.takeWhile_append_of_pos hr, takeWhile_eq_nil h, List.append_nil]

theorem dropWhile_run {run rest : List α} (hr : ∀ a ∈ run, p a)
    (h : ∀ a ∈ rest.head?, p a = false) : (run ++ rest).dropWhile p = rest := by
  rw [List.dropWhile_append_of_pos hr, dropWhile_eq_self h]

/-- A text without the separator is all that stands before it. -/
theorem takeWhile_ne_eq_self [BEq α] [LawfulBEq α] {sep : α} {l : List α} (h : sep ∉ l) :
    l.takeWhile (· != sep) = l := by
  rw [List.takeWhile_eq_self_iff]
  intro a ha
  rw [bne_iff_ne]
  rintro rfl
  exact h ha

theorem drop_length_takeWhile (p : α → Bool) (l : List α) :
    l.drop (l.takeWhile p).length = l.dropWhile p := by
  have h : (l.takeWhile p ++ l.dropWhile p).drop (l.takeWhile p).length = l.dropWhile p :=
    List.drop_left
  rwa [List.takeWhile_append_dropWhile] at h

theorem of_mem_takeWhile {a : α} {l : List α} (h : a ∈ l.takeWhile p) : p a := by
  have := List.all_takeWhile (l := l) (p := p)
  exact List.all_eq_true.1 this a h

theorem of_mem_head?_dropWhile {a : α} {l : List α} (h : a ∈ (l.dropWhile p).head?) :
    p a = false := by
  have := List.head?_dropWhile_not p l
  rw [Option.mem_def] at h
  simpa [h] using this

/-! ### Trimming -/

theorem trimEnd_append {text tail : List α} (ht : ∀ a ∈ tail, p a)
    (h : ∀ a ∈ text.getLast?, p a = false) : trimEnd p (text ++ tail) = text := by
  rw [trimEnd, List.reverse_append, dropWhile_run (by simpa using ht), List.reverse_reverse]
  simpa using h

theorem trimEnd_eq_iff {l text : List α} :
    trimEnd p l = text ↔
      ∃ tail, l = text ++ tail ∧ (∀ a ∈ tail, p a) ∧ ∀ a ∈ text.getLast?, p a = false := by
  constructor
  · rintro rfl
    refine ⟨(l.reverse.takeWhile p).reverse, ?_, ?_, ?_⟩
    · rw [trimEnd, ← List.reverse_append, List.takeWhile_append_dropWhile, List.reverse_reverse]
    · intro a ha
      exact of_mem_takeWhile (List.mem_reverse.1 ha)
    · intro a ha
      rw [trimEnd, List.getLast?_reverse] at ha
      exact of_mem_head?_dropWhile ha
  · rintro ⟨tail, rfl, ht, h⟩
    exact trimEnd_append ht h

theorem trim_eq_iff {l text : List α} :
    trim p l = text ↔
      ∃ lead tail, l = lead ++ text ++ tail ∧ (∀ a ∈ lead, p a) ∧ (∀ a ∈ tail, p a) ∧
        (∀ a ∈ text.head?, p a = false) ∧ ∀ a ∈ text.getLast?, p a = false := by
  rw [trim, trimEnd_eq_iff]
  constructor
  · rintro ⟨tail, hd, ht, hlast⟩
    refine ⟨l.takeWhile p, tail, ?_, fun a => of_mem_takeWhile, ht, ?_, hlast⟩
    · rw [List.append_assoc, ← hd, List.takeWhile_append_dropWhile]
    · intro a ha
      refine of_mem_head?_dropWhile (l := l) ?_
      rw [hd]
      simp_all
  · rintro ⟨lead, tail, rfl, hl, ht, hhead, hlast⟩
    rw [List.append_assoc, List.dropWhile_append_of_pos hl]
    cases text with
    | nil =>
      -- nothing stands between the two runs, so the trimmed text is empty too
      refine ⟨[], ?_, by simp, by simp⟩
      rw [List.nil_append, List.nil_append, List.dropWhile_eq_nil_iff]
      exact ht
    | cons a text =>
      exact ⟨tail, dropWhile_eq_self (by simpa using hhead), ht, hlast⟩

/-- Nothing is trimmed from a text without the class. -/
theorem trim_eq_self {l : List α} (h : ∀ a ∈ l, p a = false) : trim p l = l :=
  trim_eq_iff.2 ⟨[], [], by simp, nofun, nofun, fun a ha => h a (List.mem_of_mem_head? ha),
    fun a ha => h a (List.mem_of_getLast? ha)⟩

/-- More of the class around a text is trimmed with what stood there already. -/
theorem trim_pad {lead tail : List α} (hl : ∀ a ∈ lead, p a) (ht : ∀ a ∈ tail, p a) (l : List α) :
    trim p (lead ++ l ++ tail) = trim p l := by
  obtain ⟨first, last, heq, hfirst, hlast, hends⟩ := trim_eq_iff.1 (rfl : trim p l = trim p l)
  refine trim_eq_iff.2 ⟨lead ++ first, last ++ tail, ?_, ?_, ?_, hends⟩
  · conv => lhs; rw [heq]
    simp only [List.append_assoc]
  · exact List.forall_mem_append.2 ⟨hl, hfirst⟩
  · exact List.forall_mem_append.2 ⟨hlast, ht⟩

/-! ### Cutting -/

theorem cutAt_append [BEq α] [LawfulBEq α] {sep : α} {before : List α} (h : sep ∉ before)
    (after : List α) : cutAt sep (before ++ sep :: after) = some (before, after) := by
  induction before with
  | nil => simp [cutAt]
  | cons a before ih =>
    have ha : (a == sep) = false := by
      rw [beq_eq_false_iff_ne]
      rintro rfl
      exact h (by simp)
    rw [List.cons_append, cutAt, ha, ih (fun hm => h (by simp [hm]))]
    rfl

/-- Pieces with one ending, whose last item is in none of them, are split behind each ending. -/
theorem splitOn_ended [BEq α] [LawfulBEq α] {sep : α} {ending : List α} (hending : sep ∉ ending)
    {pieces : List (List α)} (h : ∀ piece ∈ pieces, sep ∉ piece) (rest : List α) :
    ((pieces.map (· ++ (ending ++ [sep]))).flatten ++ rest).splitOn sep =
      pieces.map (· ++ ending) ++ rest.splitOn sep := by
  induction pieces with
  | nil => rfl
  | cons piece pieces ih =>
    obtain ⟨hpiece, hpieces⟩ := List.forall_mem_cons.1 h
    have hfirst : sep ∉ piece ++ ending := by
      rw [List.mem_append, not_or]
      exact ⟨hpiece, hending⟩
    have hsplit (others : List α) : piece ++ (ending ++ [sep]) ++ others ++ rest =
        (piece ++ ending) ++ sep :: (others ++ rest) := by
      simp
    rw [List.map_cons, List.flatten_cons, hsplit, List.splitOn_append_cons_self_of_not_mem hfirst,
      ih hpieces]
    rfl

theorem afterStart?_eq_none_iff [BEq α] [LawfulBEq α] {start l : List α} :
    afterStart? start l = none ↔ ¬ start <+: l := by
  rw [Option.eq_none_iff_forall_ne_some]
  constructor
  · rintro h ⟨after, hafter⟩
    exact h after (afterStart?_eq_some.2 hafter.symm)
  · intro h after hafter
    exact h ⟨after, (afterStart?_eq_some.1 hafter).symm⟩

/-! ### Decimal numbers -/

def digitValue (c : Char) : Nat :=
  c.toNat - '0'.toNat

/-- Texts of a number: decimal digits, the first one highest, with or without a plus
sign. -/
def Decimal (text : List Char) (n : Nat) : Prop :=
  ∃ digits, (text = digits ∨ text = '+' :: digits) ∧ digits ≠ [] ∧ (∀ c ∈ digits, c.isDigit) ∧
    n = Nat.ofDigits 10 (digits.reverse.map digitValue)

theorem ofDigits_cons (c : Char) (digits : List Char) :
    Nat.ofDigits 10 ((c :: digits).reverse.map digitValue) =
      digitValue c * 10 ^ digits.length + Nat.ofDigits 10 (digits.reverse.map digitValue) := by
  simp [Nat.ofDigits_append, Nat.add_comm, Nat.mul_comm]

theorem readDigits_eq_ok_iff {max value n : Nat} {digits : List Char} (hv : value ≤ max) :
    readDigits max value digits = .ok n ↔
      (∀ c ∈ digits, c.isDigit) ∧ n ≤ max ∧
        n = value * 10 ^ digits.length + Nat.ofDigits 10 (digits.reverse.map digitValue) := by
  induction digits generalizing value with
  | nil =>
    simp only [readDigits, Except.ok.injEq, List.length_nil, List.reverse_nil, List.map_nil,
      Nat.ofDigits_nil, Nat.pow_zero, Nat.mul_one, Nat.add_zero]
    grind
  | cons c digits ih =>
    have hsum : value * 10 ^ (c :: digits).length +
          Nat.ofDigits 10 ((c :: digits).reverse.map digitValue) =
        (value * 10 + digitValue c) * 10 ^ digits.length +
          Nat.ofDigits 10 (digits.reverse.map digitValue) := by
      rw [ofDigits_cons, List.length_cons, Nat.pow_succ]
      ring
    rw [hsum, readDigits]
    by_cases hc : c.isDigit
    · simp only [hc, if_true, List.forall_mem_cons, true_and]
      change (if value * 10 + digitValue c ≤ max then _ else _) = _ ↔ _
      split
      · rename_i hn
        exact ih hn
      · rename_i hn
        have hp := Nat.le_mul_of_pos_right (value * 10 + digitValue c)
          (Nat.pow_pos (n := digits.length) (by decide : 0 < 10))
        simp only [reduceCtorEq, false_iff]
        omega
    · simp [hc]

theorem readNat_eq_ok_iff {max n : Nat} {text : List Char} :
    readNat max text = .ok n ↔ Decimal text n ∧ n ≤ max := by
  have hr (digits : List Char) :
      readDigits max 0 digits = .ok n ↔ (∀ c ∈ digits, c.isDigit) ∧ n ≤ max ∧
        n = Nat.ofDigits 10 (digits.reverse.map digitValue) := by
    rw [readDigits_eq_ok_iff (Nat.zero_le max), Nat.zero_mul, Nat.zero_add]
  have hplus : Char.isDigit '+' = false := by decide
  unfold readNat
  split
  · simp [Decimal]
  · simp only [reduceCtorEq, false_iff, Decimal, not_and]
    rintro ⟨digits, rfl | h, hne, hd, -⟩
    · simp [hplus] at hd
    · simp_all
  · rename_i digits hne
    rw [hr]
    constructor
    · rintro ⟨hd, hn, rfl⟩
      exact ⟨⟨digits, .inr rfl, by rintro rfl; exact hne rfl, hd, rfl⟩, hn⟩
    · rintro ⟨⟨ds, rfl | h, -, hd, rfl⟩, hn⟩
      · simp [hplus] at hd
      · cases h
        exact ⟨hd, hn, rfl⟩
  · rename_i hne _ hp
    rw [hr]
    constructor
    · rintro ⟨hd, hn, rfl⟩
      exact ⟨⟨text, .inl rfl, hne, hd, rfl⟩, hn⟩
    · rintro ⟨⟨ds, rfl | h, -, hd, rfl⟩, hn⟩
      · exact ⟨hd, hn, rfl⟩
      · exact absurd h (hp ds)

/-- Reading into a type whose values are the numbers up to `max`. -/
theorem map_readNat_eq_ok_iff {α : Type} {max : Nat} {ofNat : Nat → α} {toNat : α → Nat}
    (hto : ∀ n ≤ max, toNat (ofNat n) = n) (hof : ∀ a, ofNat (toNat a) = a)
    (hmax : ∀ a, toNat a ≤ max) {text : List Char} {a : α} :
    (readNat max text).map ofNat = .ok a ↔ Decimal text (toNat a) := by
  constructor
  · intro h
    cases hn : readNat max text with
    | error e =>
      rw [hn] at h
      cases h
    | ok n =>
      obtain ⟨hd, hle⟩ := readNat_eq_ok_iff.1 hn
      rw [hn] at h
      cases h
      rwa [hto n hle]
  · intro h
    rw [readNat_eq_ok_iff.2 ⟨h, hmax a⟩, Except.map, hof]

theorem readUInt32_eq_ok_iff {text : List Char} {n : UInt32} :
    readUInt32 text = .ok n ↔ Decimal text n.toNat :=
  map_readNat_eq_ok_iff
    (fun _ hle => UInt32.toNat_ofNat_of_lt' (Nat.lt_of_le_of_lt hle (by decide)))
    (fun _ => UInt32.ofNat_toNat) (fun n => Nat.le_sub_one_of_lt n.toNat_lt)

theorem readUInt64_eq_ok_iff {text : List Char} {n : UInt64} :
    readUInt64 text = .ok n ↔ Decimal text n.toNat :=
  map_readNat_eq_ok_iff
    (fun _ hle => UInt64.toNat_ofNat_of_lt' (Nat.lt_of_le_of_lt hle (by decide)))
    (fun _ => UInt64.ofNat_toNat) (fun n => Nat.le_sub_one_of_lt n.toNat_lt)

end RealTimeStreaming.Text
