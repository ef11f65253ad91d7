import FlowLog.Text.Decimal

/-! Shortest decimal form of a binary floating-point number. A positive number `m * 2 ^ q` owns the
reals that round to it, the ends of the interval included when `m` is even. For one digit, two
digits and so on the neighbours of the number on that decimal grid are tried in exact arithmetic;
the first grid with a neighbour in the interval wins, and of two neighbours the nearer. -/

namespace FlowLog
namespace Shortest

def twoTo (n : Nat) : Nat := Nat.pow 2 n
def tenTo (n : Nat) : Nat := Nat.pow 10 n

/-- A positive binary number `significand * 2 ^ exponent`; `narrow` says that the number below it
is only half as far away as the one above. -/
structure Binary where
  significand : Nat
  exponent : Int
  narrow : Bool

def Binary.ofBits? (bits : UInt64) : Option Binary :=
  -- The sign bit is left out.
  let n : Nat := bits.toNat % twoTo 63
  let fraction : Nat := n % twoTo 52
  let biased : Nat := n / twoTo 52
  if biased = 0 then if fraction = 0 then none else some ⟨fraction, -1074, false⟩
  else some ⟨twoTo 52 + fraction, biased - 1075, fraction = 0 && 1 < biased⟩

structure Ratio where
  num : Nat
  den : Nat

def Ratio.le (a b : Ratio) : Bool := a.num * b.den ≤ b.num * a.den
def Ratio.lt (a b : Ratio) : Bool := a.num * b.den < b.num * a.den

/-- `n` quarters of the unit in the last place. -/
def Binary.quarters (b : Binary) (n : Nat) : Ratio :=
  if 2 ≤ b.exponent then ⟨n * twoTo (b.exponent - 2).toNat, 1⟩
  else ⟨n, twoTo (2 - b.exponent).toNat⟩

def Binary.value (b : Binary) : Ratio := b.quarters (4 * b.significand)

def Binary.owns (b : Binary) (r : Ratio) : Bool :=
  let low := b.quarters (4 * b.significand - if b.narrow then 1 else 2)
  let high := b.quarters (4 * b.significand + 2)
  if b.significand % 2 = 0 then low.le r && r.le high else low.lt r && r.lt high

structure Point where
  digits : Nat
  exponent : Int

def Point.value (p : Point) : Ratio :=
  if 0 ≤ p.exponent then ⟨p.digits * tenTo p.exponent.toNat, 1⟩
  else ⟨p.digits, tenTo (-p.exponent).toNat⟩

def Ratio.floor (r : Ratio) (exponent : Int) : Point :=
  if 0 ≤ exponent then ⟨r.num / (r.den * tenTo exponent.toNat), exponent⟩
  else ⟨r.num * tenTo (-exponent).toNat / r.den, exponent⟩

def Ratio.magnitude (r : Ratio) : Int :=
  if r.den ≤ r.num then ((Decimal.digits (r.num / r.den)).length : Int) - 1
  else match (List.range 400).find? fun k => r.den ≤ r.num * tenTo (k + 1) with
    | some k => -((k : Int) + 1)
    | none => 0

/-- Whether the upper neighbour `d + 1` is nearer than the lower one `d`; a tie goes to the even. -/
def Ratio.nearerAbove (r : Ratio) (p : Point) : Bool :=
  let middle : Ratio := Point.value ⟨10 * p.digits + 5, p.exponent - 1⟩
  middle.lt r || (middle.le r && p.digits % 2 = 1)

/-- The neighbour on the grid `10 ^ exponent` that the number owns, the nearer one of two. -/
def Binary.onGrid? (b : Binary) (exponent : Int) : Option Point :=
  let below := b.value.floor exponent
  let above : Point := ⟨below.digits + 1, exponent⟩
  match b.owns below.value, b.owns above.value with
  | true, true => some (if b.value.nearerAbove below then above else below)
  | true, false => some below
  | false, true => some above
  | false, false => none

def Binary.shortest (b : Binary) : Point :=
  let first := b.value.magnitude
  match (List.range 17).findSome? fun (k : Nat) => b.onGrid? (first - k) with
  | some p => p
  -- Seventeen digits always suffice.
  | none => b.value.floor (first - 16)

def Point.scientific (p : Point) : List Nat × Int :=
  let ds := Decimal.digits p.digits
  let kept := (ds.reverse.dropWhile (· == 0)).reverse
  (kept, p.exponent + ds.length - 1)

/-- How a number is written: positional while the power of the first digit lies in a range, and
with an exponent beyond it. -/
structure Layout where
  least : Int
  greatest : Int

def zeros (n : Nat) : List Char := List.replicate n '0'

def positional (ds : List Nat) (first : Int) : List Char :=
  let cs := ds.map Decimal.digitChar
  if first < 0 then '0' :: '.' :: zeros (-first - 1).toNat ++ cs
  else
    let whole := first.toNat + 1
    if cs.length ≤ whole then cs ++ zeros (whole - cs.length) ++ ['.', '0']
    else cs.take whole ++ '.' :: cs.drop whole

def exponential (ds : List Nat) (first : Int) : List Char :=
  let exponent := 'e' :: (if first < 0 then '-' else '+') :: Decimal.chars first.natAbs
  match ds.map Decimal.digitChar with
  | [] => exponent
  | [c] => c :: exponent
  | c :: cs => c :: '.' :: cs ++ exponent

def Layout.write (style : Layout) (bits : UInt64) : List Char :=
  let sign := if bits.toNat < twoTo 63 then [] else ['-']
  match Binary.ofBits? bits with
  | none => sign ++ ['0', '.', '0']
  | some b =>
    let (ds, first) := b.shortest.scientific
    sign ++ if style.least ≤ first ∧ first ≤ style.greatest then positional ds first
      else exponential ds first

/-- The number with `places` digits after the point, rounded from its exact value; a half goes to
the even neighbour. -/
def fixed (places : Nat) (bits : UInt64) : List Char :=
  let sign := if bits.toNat < twoTo 63 then [] else ['-']
  let n := match Binary.ofBits? bits with
    | none => 0
    | some b =>
      let below := b.value.floor (-places)
      if b.value.nearerAbove below then below.digits + 1 else below.digits
  let cs := Decimal.padded (places + 1) n
  sign ++ cs.take (cs.length - places) ++ '.' :: cs.drop (cs.length - places)

end Shortest
end FlowLog
