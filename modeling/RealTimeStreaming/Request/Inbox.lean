import RealTimeStreaming.Request.Parser

/-! A parser together with the bytes that have arrived for it. A new piece is shown to the
parser behind the bytes not yet consumed, which comes to the same as showing it every byte
from the first one on (`push_eq_parse`). -/

namespace RealTimeStreaming

/-- The first `n` items, turned around, in front of `acc`. -/
def reverseTake {α : Type} : (n : Nat) → (l acc : List α) → List α
  | 0, _, acc => acc
  | _ + 1, [], acc => acc
  | n + 1, x :: l, acc => reverseTake n l (x :: acc)

theorem reverseTake_eq {α : Type} (n : Nat) (l acc : List α) :
    reverseTake n l acc = (l.take n).reverse ++ acc := by
  fun_induction reverseTake n l acc <;> simp_all

/-- A parser, its request, and all bytes that it has been or will be shown. -/
structure Inbox where
  parser : Parser := {}
  request : Request
  /-- The bytes that have arrived, the last one first. -/
  arrived : Bytes := []
  /-- How many bytes have arrived. -/
  size : Nat := 0
  size_eq : size = arrived.length := by rfl

namespace Inbox

/-- The bytes in the order of their arrival. -/
def bytes (i : Inbox) : Bytes :=
  i.arrived.reverse

/-- How many bytes the parser has not consumed. -/
def available (i : Inbox) : Nat :=
  i.size - i.parser.offset

/-- The bytes that the parser has not consumed. -/
def pending (i : Inbox) : Bytes :=
  reverseTake i.available i.arrived []

theorem pending_eq (i : Inbox) : i.pending = i.bytes.drop i.parser.offset := by
  rw [pending, reverseTake_eq, List.append_nil, bytes, available, i.size_eq, List.drop_reverse]

@[simp] theorem length_pending (i : Inbox) : i.pending.length = i.available := by
  simp [pending_eq, bytes, available, i.size_eq]

/-- Adds bytes that the parser has not been shown. -/
def put (i : Inbox) (piece : Bytes) : Inbox :=
  { i with
    arrived := piece.reverse ++ i.arrived
    size := i.size + piece.length
    size_eq := by simp [i.size_eq, Nat.add_comm] }

@[simp] theorem bytes_put (i : Inbox) (piece : Bytes) : (i.put piece).bytes = i.bytes ++ piece := by
  simp [bytes, put]

/-- Shows the parser the bytes not consumed, unless it waits for more of them. -/
def read (i : Inbox) : Inbox :=
  if i.parser.waits i.available then i
  else
    let (parser, request) := i.parser.run i.request i.pending
    { i with parser, request }

theorem read_eq_run (i : Inbox) :
    (i.read.parser, i.read.request) = i.parser.run i.request i.pending := by
  unfold read
  split
  · rename_i h
    exact (Parser.run_of_waits i.request (by rwa [length_pending])).symm
  · rfl

/-- Takes in a piece and shows it to the parser. -/
def push (i : Inbox) (piece : Bytes) : Inbox :=
  (i.put piece).read

/-- A piece has the effect of parsing all bytes up to its end. -/
theorem push_eq_parse (i : Inbox) (piece : Bytes) :
    ((i.push piece).parser, (i.push piece).request) =
      i.parser.parse i.request (i.bytes ++ piece) := by
  rw [push, read_eq_run, pending_eq, bytes_put]
  rfl

/-- Removes the bytes consumed and gets ready for the next request. -/
def next (i : Inbox) : Inbox :=
  { i with
    parser := i.parser.reset
    arrived := i.arrived.take i.available
    size := i.available
    size_eq := by simp [available, i.size_eq] }

@[simp] theorem bytes_next (i : Inbox) : i.next.bytes = i.bytes.drop i.parser.offset := by
  simp only [bytes, next, available, i.size_eq, List.drop_reverse]

end Inbox

end RealTimeStreaming
