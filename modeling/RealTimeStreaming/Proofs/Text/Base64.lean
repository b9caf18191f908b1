import RealTimeStreaming.Text.Base64

/-! Base64 read back. A reader of the standard alphabet that takes no text but the canonical one
finds the bytes that were written. -/

namespace RealTimeStreaming.Text.Base64

/-- The characters in the order of their values. -/
def alphabet : List Char :=
  "ABCDEFGHIJKLMNOPQRSTUVWXYZabcdefghijklmnopqrstuvwxyz0123456789+/".toList

def value? (c : Char) : Option Nat :=
  alphabet.idxOf? c

/-- Four characters give three bytes. At the end `=` may stand for the last one or two, which give
no byte; the bits that are left over are zero. -/
def decodeChars? : List Char → Option Bytes
  | [] => some []
  | a :: b :: c :: d :: rest => do
    let a ← value? a
    let b ← value? b
    let first := .ofNat (a * 4 + b / 16)
    if c = '=' ∧ d = '=' ∧ rest = [] then
      if b % 16 = 0 then some [first] else none
    else
      let c ← value? c
      let second := .ofNat (b % 16 * 16 + c / 4)
      if d = '=' ∧ rest = [] then
        if c % 4 = 0 then some [first, second] else none
      else
        let d ← value? d
        let bytes ← decodeChars? rest
        some (first :: second :: .ofNat (c % 4 * 64 + d) :: bytes)
  | _ => none

theorem value?_symbol {n : Nat} (h : n < 64) : value? (symbol n) = some n := by
  have hall : ∀ n < 64, value? (symbol n) = some n := by decide +kernel
  exact hall n h

theorem value?_pad : value? '=' = none := by
  decide +kernel

theorem symbol_ne_pad {n : Nat} (h : n < 64) : symbol n ≠ '=' := by
  intro hpad
  have hvalue := value?_symbol h
  rw [hpad, value?_pad] at hvalue
  cases hvalue

theorem not_mem_encodeChars {x : Char} (hpad : x ≠ '=') (hsymbol : ∀ n < 64, x ≠ symbol n)
    (bytes : Bytes) : x ∉ encodeChars bytes := by
  fun_induction encodeChars bytes with
  | case1 a b c rest ih =>
    have ha := a.toNat_lt
    have hb := b.toNat_lt
    have hc := c.toNat_lt
    simp only [List.mem_cons, not_or]
    exact ⟨hsymbol _ (by omega), hsymbol _ (by omega), hsymbol _ (by omega), hsymbol _ (by omega),
      ih⟩
  | case2 a b =>
    have ha := a.toNat_lt
    have hb := b.toNat_lt
    simp only [List.mem_cons, not_or]
    exact ⟨hsymbol _ (by omega), hsymbol _ (by omega), hsymbol _ (by omega), hpad, by simp⟩
  | case3 a =>
    have ha := a.toNat_lt
    simp only [List.mem_cons, not_or]
    exact ⟨hsymbol _ (by omega), hsymbol _ (by omega), hpad, hpad, by simp⟩
  | case4 => simp

theorem ofNat_of_eq {n : Nat} {b : UInt8} (h : n = b.toNat) : UInt8.ofNat n = b := by
  rw [h, UInt8.ofNat_toNat]

theorem decodeChars?_encodeChars (bytes : Bytes) :
    decodeChars? (encodeChars bytes) = some bytes := by
  fun_induction encodeChars bytes with
  | case1 a b c rest ih =>
    have ha := a.toNat_lt
    have hb := b.toNat_lt
    have hc := c.toNat_lt
    simp (disch := omega) only [decodeChars?, value?_symbol, symbol_ne_pad, false_and, if_false, ih,
      Option.bind_eq_bind, Option.bind_some]
    rw [ofNat_of_eq (b := a) (by omega), ofNat_of_eq (b := b) (by omega),
      ofNat_of_eq (b := c) (by omega)]
  | case2 a b =>
    have ha := a.toNat_lt
    have hb := b.toNat_lt
    have hzero : b.toNat % 16 * 4 % 4 = 0 := Nat.mul_mod_left _ _
    simp (disch := omega) only [decodeChars?, value?_symbol, symbol_ne_pad, false_and, if_false,
      hzero, and_self, if_true, Option.bind_eq_bind, Option.bind_some]
    rw [ofNat_of_eq (b := a) (by omega), ofNat_of_eq (b := b) (by omega)]
  | case3 a =>
    have ha := a.toNat_lt
    have hzero : a.toNat % 4 * 16 % 16 = 0 := Nat.mul_mod_left _ _
    simp (disch := omega) only [decodeChars?, value?_symbol, hzero, and_self, if_true,
      Option.bind_eq_bind, Option.bind_some]
    rw [ofNat_of_eq (b := a) (by omega)]
  | case4 => rfl

end RealTimeStreaming.Text.Base64
