/-! # Scheduling priorities

Streams and tasks carry a priority from 0, the most urgent, to 7. On the wire a priority is a weight
byte whose three high bits select one of the eight bands, the heaviest band being the most urgent. -/

namespace Multiplex.Priority

/-- The least urgent priority. -/
def lowest : Nat := 7

/-- The priority of the band that `weight` lies in. -/
def ofWeight (weight : UInt8) : Nat :=
  lowest - weight.toNat / 32

/-- The heaviest weight of the band of `priority`; what exceeds the lowest priority counts as lowest. -/
def weight (priority : Nat) : UInt8 :=
  UInt8.ofNat ((lowest - min priority lowest) * 32 + 31)

/-- The weight of a priority lies in the band of that priority. -/
theorem ofWeight_weight (priority : Nat) : ofWeight (weight priority) = min priority lowest := by
  simp only [ofWeight, weight, lowest, UInt8.toNat_ofNat']
  omega

end Multiplex.Priority
