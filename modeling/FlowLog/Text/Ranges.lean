/-! Sets of code points as lists of inclusive ranges, and the rules that map a range by one
distance. -/

namespace FlowLog

abbrev Ranges := List (Nat × Nat)

def Ranges.has (rs : Ranges) (c : Char) : Bool :=
  rs.any fun r => r.1 ≤ c.toNat && c.toNat ≤ r.2

/-- Every `step`-th code point from `first` to `last` moves by `distance`. -/
structure Shift where
  first : Nat
  last : Nat
  step : Nat
  distance : Int

def Shift.covers (s : Shift) (c : Char) : Bool :=
  s.first ≤ c.toNat && c.toNat ≤ s.last && (c.toNat - s.first) % s.step == 0

def Shift.move (s : Shift) (c : Char) : Char := Char.ofNat (c.toNat + s.distance).toNat

end FlowLog
