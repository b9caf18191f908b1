import RealTimeStreaming.Text.Trim

/-! The blank characters of Unicode (property `White_Space`) and the trimming of text by
them. -/

namespace RealTimeStreaming.Text

/-- The blank characters: every code point with the property `White_Space`. -/
def isBlank (c : Char) : Bool :=
  (0x09 ≤ c.toNat && c.toNat ≤ 0x0D) || c.toNat == 0x20 || c.toNat == 0x85 ||
  c.toNat == 0xA0 || c.toNat == 0x1680 || (0x2000 ≤ c.toNat && c.toNat ≤ 0x200A) ||
  c.toNat == 0x2028 || c.toNat == 0x2029 || c.toNat == 0x202F || c.toNat == 0x205F ||
  c.toNat == 0x3000

/-- A text without the blanks at its ends. -/
def trimBlanks (cs : List Char) : List Char :=
  trim isBlank cs

/-- A text with its ASCII letters in lower case: the key under which names that differ in
ASCII case only are the same. -/
def foldCase (s : String) : List Char :=
  s.toList.map Char.toLower

/-- Equality of texts up to ASCII case. -/
def sameUpToCase (s t : String) : Bool :=
  foldCase s == foldCase t

end RealTimeStreaming.Text
