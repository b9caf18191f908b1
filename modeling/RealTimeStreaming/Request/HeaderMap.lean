import RealTimeStreaming.Request.Error
import RealTimeStreaming.Text.Blank

/-! The headers of a request: a bounded map in order of first insertion, whose names are
the same when they differ in ASCII case only. A name keeps its first spelling and its
place when its value is written again. -/

namespace RealTimeStreaming

structure Header where
  name : String
  value : String
deriving DecidableEq, Repr

def Header.hasName (h : Header) (name : String) : Bool :=
  Text.sameUpToCase h.name name

structure HeaderMap where
  /-- How many distinct names fit. -/
  capacity : Nat := 32
  entries : List Header := []
deriving DecidableEq, Repr

namespace HeaderMap

/-- A map without headers. -/
def empty (capacity : Nat) : HeaderMap :=
  { capacity }

def size (m : HeaderMap) : Nat :=
  m.entries.length

def isEmpty (m : HeaderMap) : Bool :=
  m.entries.isEmpty

def isFull (m : HeaderMap) : Bool :=
  m.capacity ≤ m.size

/-- Removes the headers and keeps the capacity. -/
def clear (m : HeaderMap) : HeaderMap :=
  { m with entries := [] }

def get? (m : HeaderMap) (name : String) : Option String :=
  (m.entries.find? (·.hasName name)).map Header.value

def contains (m : HeaderMap) (name : String) : Bool :=
  (m.get? name).isSome

/-- Writes `value` into the first entry called `name`. -/
def overwrite (name value : String) : List Header → List Header
  | [] => []
  | h :: rest =>
    if h.hasName name then { h with value } :: rest else h :: overwrite name value rest

/-- Adds a header or overwrites the value it has, which is then returned too. A full map
takes no new name. -/
def insert (m : HeaderMap) (name value : String) :
    Except ParseError (HeaderMap × Option String) :=
  match m.get? name with
  | some old => .ok ({ m with entries := overwrite name value m.entries }, some old)
  | none =>
    if m.isFull then .error .headersFull
    else .ok ({ m with entries := m.entries ++ [⟨name, value⟩] }, none)

/-- The entries as pairs of name and value. -/
def toList (m : HeaderMap) : List (String × String) :=
  m.entries.map fun h => (h.name, h.value)

@[simp] theorem get?_empty (capacity : Nat) (name : String) : (empty capacity).get? name = none :=
  rfl

@[simp] theorem size_empty (capacity : Nat) : (empty capacity).size = 0 := rfl

@[simp] theorem entries_clear (m : HeaderMap) : m.clear.entries = [] := rfl

@[simp] theorem capacity_clear (m : HeaderMap) : m.clear.capacity = m.capacity := rfl

end HeaderMap

end RealTimeStreaming
