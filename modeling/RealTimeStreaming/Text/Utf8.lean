import RealTimeStreaming.Text.Octet

/-! Text and its UTF-8 bytes. `ofUtf8?` reads well-formed bytes only; `lossy` reads any
bytes and puts one replacement character for each maximal malformed part, that is, for
the longest run of bytes that could still have become a character. -/

namespace RealTimeStreaming.Text

/-- The bytes that spell a text. -/
def utf8 (s : String) : Bytes :=
  s.toByteArray.data.toList

/-- The text that the bytes spell, if they are well-formed. -/
def ofUtf8? (bytes : Bytes) : Option String :=
  String.fromUTF8? ⟨bytes.toArray⟩

/-- The text of ASCII bytes. -/
def ofAscii (bytes : Bytes) : String :=
  String.ofList (bytes.map fun b => Char.ofNat b.toNat)

theorem utf8_injective {s t : String} (h : utf8 s = utf8 t) : s = t := by
  apply String.ext_iff.2
  have : s.toByteArray.data = t.toByteArray.data := Array.toList_inj.1 h
  have hb : s.toByteArray = t.toByteArray := by
    cases hs : s.toByteArray; cases ht : t.toByteArray
    simp_all
  cases s; cases t
  simp_all

theorem utf8_of_ofUtf8? {bytes : Bytes} {s : String} (h : ofUtf8? bytes = some s) :
    utf8 s = bytes := by
  unfold ofUtf8? String.fromUTF8? at h
  split at h
  · simp only [Option.some.injEq] at h
    subst h
    simp [utf8, String.fromUTF8]
  · simp at h

theorem ofUtf8?_utf8 (s : String) : ofUtf8? (utf8 s) = some s := by
  have h : (⟨(utf8 s).toArray⟩ : ByteArray) = s.toByteArray := by
    cases hs : s.toByteArray
    simp [utf8, hs]
  rw [ofUtf8?, h]
  simp [String.fromUTF8?, s.isValidUTF8, String.fromUTF8]

/-! ### Reading malformed bytes -/

/-- A character of which some bytes have been read: its value so far, how many bytes it
still lacks, and the range that the next of them has to lie in. -/
structure Unfinished where
  value : Nat
  missing : Nat
  low : UInt8
  high : UInt8
deriving DecidableEq, Repr

/-- What a byte at the start of a character stands for. -/
inductive Lead where
  | whole (c : Char)
  | opens (u : Unfinished)
  | stray
deriving DecidableEq, Repr

/-- The second byte is narrowed where the full range would allow an overlong form, a
surrogate or a value past the last character. -/
def Lead.ofByte (b : UInt8) : Lead :=
  if b < 0x80 then .whole (Char.ofNat b.toNat)
  else if b < 0xC2 then .stray
  else if b < 0xE0 then .opens ⟨b.toNat - 0xC0, 1, 0x80, 0xBF⟩
  else if b < 0xF0 then
    .opens ⟨b.toNat - 0xE0, 2, if b = 0xE0 then 0xA0 else 0x80, if b = 0xED then 0x9F else 0xBF⟩
  else if b < 0xF5 then
    .opens ⟨b.toNat - 0xF0, 3, if b = 0xF0 then 0x90 else 0x80, if b = 0xF4 then 0x8F else 0xBF⟩
  else .stray

def replacement : Char := '\uFFFD'

/-- What has been read: the characters, last one first, and the one under way. -/
structure Progress where
  read : List Char := []
  pending : Option Unfinished := none

/-- A byte at the start of a character. -/
def Progress.start (read : List Char) (b : UInt8) : Progress :=
  match Lead.ofByte b with
  | .whole c => ⟨c :: read, none⟩
  | .opens u => ⟨read, some u⟩
  | .stray => ⟨replacement :: read, none⟩

/-- A byte that cannot continue the character under way ends it as malformed and is then
read afresh. -/
def Progress.step (p : Progress) (b : UInt8) : Progress :=
  match p.pending with
  | none => .start p.read b
  | some u =>
    if u.low ≤ b ∧ b ≤ u.high then
      let value := u.value * 64 + (b.toNat - 0x80)
      if u.missing ≤ 1 then ⟨Char.ofNat value :: p.read, none⟩
      else ⟨p.read, some ⟨value, u.missing - 1, 0x80, 0xBF⟩⟩
    else .start (replacement :: p.read) b

/-- At the end of the bytes a character under way is malformed. -/
def Progress.finish (p : Progress) : List Char :=
  (if p.pending.isSome then replacement :: p.read else p.read).reverse

/-- The text of any bytes, malformed parts replaced. -/
def lossy (bytes : Bytes) : String :=
  String.ofList (bytes.foldl Progress.step {}).finish

end RealTimeStreaming.Text
