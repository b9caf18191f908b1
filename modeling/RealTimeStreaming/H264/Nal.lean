import RealTimeStreaming.Text.Octet

/-! NAL units of an H.264 stream: a header byte and a payload. The header holds a flag
that must be clear, the reference importance in two bits and the unit type in five. -/

namespace RealTimeStreaming.H264

structure NalHeader where
  forbidden : Bool
  refIdc : UInt8
  unitType : UInt8
deriving DecidableEq, Repr

namespace NalHeader

def sequenceParameterSet : UInt8 := 7
def pictureParameterSet : UInt8 := 8
def accessUnitDelimiter : UInt8 := 9

def ofByte (b : UInt8) : NalHeader where
  forbidden := b &&& 0x80 != 0
  refIdc := b >>> 5 &&& 0x03
  unitType := b &&& 0x1F

/-- Each field keeps the bits it has room for. -/
def toByte (h : NalHeader) : UInt8 :=
  Octet.flag h.forbidden 0x80 ||| (h.refIdc &&& 0x03) <<< 5 ||| (h.unitType &&& 0x1F)

/-- A delimiter starts each picture. -/
def isDelimiter (h : NalHeader) : Bool :=
  h.unitType == accessUnitDelimiter

/-- The units that carry the picture itself. -/
def isCodedSlice (h : NalHeader) : Bool :=
  1 ≤ h.unitType && h.unitType ≤ 5

end NalHeader

/-- A unit is never empty, since its first byte is the header. -/
structure NalUnit where
  first : UInt8
  payload : Bytes
deriving DecidableEq, Repr

namespace NalUnit

def ofBytes? : Bytes → Option NalUnit
  | [] => none
  | first :: payload => some ⟨first, payload⟩

def bytes (u : NalUnit) : Bytes :=
  u.first :: u.payload

def header (u : NalUnit) : NalHeader :=
  .ofByte u.first

@[simp] theorem ofBytes?_bytes (u : NalUnit) : ofBytes? u.bytes = some u := rfl

end NalUnit

end RealTimeStreaming.H264
