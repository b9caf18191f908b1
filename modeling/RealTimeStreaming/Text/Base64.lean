import RealTimeStreaming.Text.Octet

/-! Base64 with the standard alphabet and padding: three bytes become four characters, and
a rest of one or two bytes is filled up with `=`. -/

namespace RealTimeStreaming.Text.Base64

/-- The character of a value below 64: letters, small letters, digits, then two marks. -/
def symbol (n : Nat) : Char :=
  if n < 26 then Char.ofNat (0x41 + n)
  else if n < 52 then Char.ofNat (0x61 + (n - 26))
  else if n < 62 then Char.ofNat (0x30 + (n - 52))
  else if n = 62 then '+'
  else '/'

/-- Stands for the encoder of the `base64` package with the standard alphabet and padding. -/
def encodeChars : Bytes → List Char
  | a :: b :: c :: rest =>
    symbol (a.toNat / 4) ::
    symbol (a.toNat % 4 * 16 + b.toNat / 16) ::
    symbol (b.toNat % 16 * 4 + c.toNat / 64) ::
    symbol (c.toNat % 64) :: encodeChars rest
  | [a, b] =>
    [symbol (a.toNat / 4), symbol (a.toNat % 4 * 16 + b.toNat / 16), symbol (b.toNat % 16 * 4), '=']
  | [a] => [symbol (a.toNat / 4), symbol (a.toNat % 4 * 16), '=', '=']
  | [] => []

def encode (bytes : Bytes) : String :=
  String.ofList (encodeChars bytes)

end RealTimeStreaming.Text.Base64
