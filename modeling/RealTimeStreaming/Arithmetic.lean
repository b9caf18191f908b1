/-! Sums and products of sizes, which are 64-bit words. A machine that checks its arithmetic stops
where a result leaves the words; one that does not goes on with what remains of it. -/

namespace RealTimeStreaming

/-- What becomes of a result that leaves the words. -/
inductive Arithmetic where
  | wrapping
  | checked
deriving DecidableEq, Repr

namespace Arithmetic

variable {arithmetic : Arithmetic} {result : Nat}

/-- The word for a result, unless the machine stops at it. -/
def word? (arithmetic : Arithmetic) (result : Nat) : Option UInt64 :=
  if arithmetic = .checked ∧ UInt64.size ≤ result then none else some (.ofNat result)

theorem word?_wrapping (result : Nat) : wrapping.word? result = some (.ofNat result) :=
  if_neg fun h => nomatch h.1

theorem word?_of_lt (h : result < UInt64.size) (arithmetic : Arithmetic) :
    arithmetic.word? result = some (.ofNat result) :=
  if_neg fun hleaves => Nat.not_le_of_lt h hleaves.2

theorem word?_checked_of_le (h : UInt64.size ≤ result) : checked.word? result = none :=
  if_pos ⟨rfl, h⟩

end Arithmetic

end RealTimeStreaming
