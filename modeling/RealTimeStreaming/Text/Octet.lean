/-! Bytes as they travel, and the classes of bytes that the message grammar names. All
classes are ASCII; a byte of 128 and above is in none of them. -/

namespace RealTimeStreaming

/-- A stretch of a byte stream. -/
abbrev Bytes := List UInt8

namespace Octet

def space : UInt8 := 0x20
def tab : UInt8 := 0x09
def lineFeed : UInt8 := 0x0A
def carriageReturn : UInt8 := 0x0D
def colon : UInt8 := 0x3A

/-- Space or tab: what separates the parts of a request line. -/
def isSpace (b : UInt8) : Bool :=
  b == space || b == tab

def isLineBreak (b : UInt8) : Bool :=
  b == carriageReturn || b == lineFeed

/-- What ends a token, and what may stand before a request. -/
def isSeparator (b : UInt8) : Bool :=
  isSpace b || isLineBreak b

/-- Whitespace as trimmed around header names and values: form feed counts, vertical tab
does not. -/
def isBlank (b : UInt8) : Bool :=
  isSeparator b || b == 0x0C

def isDigit (b : UInt8) : Bool :=
  0x30 ≤ b && b ≤ 0x39

def isLetter (b : UInt8) : Bool :=
  (0x41 ≤ b && b ≤ 0x5A) || (0x61 ≤ b && b ≤ 0x7A)

def isAlphanumeric (b : UInt8) : Bool :=
  isDigit b || isLetter b

/-- Visible ASCII, the space left out. -/
def isGraphic (b : UInt8) : Bool :=
  0x21 ≤ b && b ≤ 0x7E

/-- The marks that a header name may hold besides letters and digits. -/
def nameMarks : Bytes :=
  [0x21, 0x23, 0x24, 0x25, 0x26, 0x27, 0x2A, 0x2B, 0x2D, 0x2E, 0x5E, 0x5F, 0x60, 0x7C, 0x7E]

/-- The characters of a header name. -/
def isNameChar (b : UInt8) : Bool :=
  isAlphanumeric b || nameMarks.contains b

/-- A flag as the bit of the given weight. -/
def flag (set : Bool) (weight : UInt8) : UInt8 :=
  if set then weight else 0

/-- A header name character is visible, so it is neither a separator nor a blank. -/
theorem isGraphic_of_isNameChar {b : UInt8} (h : isNameChar b) : isGraphic b := by
  revert h
  simp only [isNameChar, isAlphanumeric, isDigit, isLetter, isGraphic, nameMarks,
    List.contains_eq_mem, Bool.or_eq_true, Bool.and_eq_true, decide_eq_true_eq,
    List.mem_cons, List.not_mem_nil, UInt8.le_iff_toNat_le, ← UInt8.toNat_inj, or_false]
  simp only [UInt8.reduceToNat]
  omega

theorem isGraphic_of_isAlphanumeric {b : UInt8} (h : isAlphanumeric b) : isGraphic b :=
  isGraphic_of_isNameChar (by simp [isNameChar, h])

theorem not_isBlank_of_isGraphic {b : UInt8} (h : isGraphic b) : isBlank b = false := by
  revert h
  simp only [isGraphic, isBlank, isSeparator, isSpace, isLineBreak, space, tab, carriageReturn,
    lineFeed, Bool.and_eq_true, decide_eq_true_eq, Bool.or_eq_false_iff, beq_eq_false_iff_ne,
    UInt8.le_iff_toNat_le, ne_eq, ← UInt8.toNat_inj, UInt8.reduceToNat]
  omega

end Octet

end RealTimeStreaming
