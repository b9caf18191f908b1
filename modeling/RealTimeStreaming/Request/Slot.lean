import RealTimeStreaming.Request.Element

/-! The elements of a request as slots that hold the values read into them. A slot is shown the
bytes not yet consumed; one that waits, or fails, keeps the value that it had. -/

namespace RealTimeStreaming

inductive Slot where
  | method (value : Method)
  | target (value : String)
  | version (value : Version)
  | headers (value : HeaderMap)
deriving DecidableEq, Repr

namespace Slot

/-- The slot with the element in it, and whether it is full. A header leaves room for the next
one. -/
def read (limits : Limits) (slot : Slot) (w : Bytes) : Reading (Bool × Slot) :=
  match slot with
  | .method _ => (Method.read limits w).check fun m => .ok (true, .method m)
  | .target _ => (readTarget limits w).check fun uri => .ok (true, .target uri)
  | .version _ => (Version.read w).check fun v => .ok (true, .version v)
  | .headers m => (m.readLine limits w).check fun
    | .stored grown => .ok (false, .headers grown)
    | .blank => .ok (true, .headers m)

/-- Reads an element into the slot, and gives whether it is full. -/
def fill (limits : Limits) (slot : Slot) (w : Bytes) : Reading Bool × Slot :=
  match slot.read limits w with
  | .needMore => (.needMore, slot)
  | .failed e => (.failed e, slot)
  | .complete (full, filled) n => (.complete full n, filled)

end Slot

end RealTimeStreaming
