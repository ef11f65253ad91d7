import FlowLog.Text.Shortest

/-! Numbers in JSON text. A numeral keeps the digits as they are written; its value is an integer
when it has neither fraction nor exponent and fits 64 bits, and a floating-point number otherwise.
A numeral beyond the floating-point range has no value. -/

namespace FlowLog
namespace Json

structure Numeral where
  negative : Bool
  whole : List Nat
  fraction : List Nat
  exponent : Option (Bool × List Nat)
  deriving DecidableEq, Repr

inductive Number
  | natural (n : UInt64)
  | negative (magnitude : Nat)
  | float (x : Float)

namespace Numeral

/-- A leading zero stands alone. -/
def whole? : List Char → Option (List Nat × List Char)
  | '0' :: r => some ([0], r)
  | s => Decimal.some? s

theorem whole?_length {s rest : List Char} {ds : List Nat} (h : whole? s = some (ds, rest)) :
    rest.length < s.length := by
  unfold whole? at h
  split at h
  · simp_all
  · exact Decimal.some?_length h

/-- A point must be followed by a digit. -/
def fraction? : List Char → Option (List Nat × List Char)
  | '.' :: r => Decimal.some? r
  | s => some ([], s)

theorem fraction?_length {s rest : List Char} {ds : List Nat} (h : fraction? s = some (ds, rest)) :
    rest.length ≤ s.length := by
  unfold fraction? at h
  split at h
  · have := Decimal.some?_length h
    rw [List.length_cons]
    omega
  · simp_all

/-- The sign is true for a negative exponent. -/
def exponentSign : List Char → Bool × List Char
  | '-' :: r => (true, r)
  | '+' :: r => (false, r)
  | s => (false, s)

theorem exponentSign_length (s : List Char) : (exponentSign s).2.length ≤ s.length := by
  unfold exponentSign
  split <;> simp

def exponent? : List Char → Option (Option (Bool × List Nat) × List Char)
  | [] => some (none, [])
  | c :: r =>
    if c = 'e' ∨ c = 'E' then
      (Decimal.some? (exponentSign r).2).map fun (ds, rest) =>
        (some ((exponentSign r).1, ds), rest)
    else some (none, c :: r)

theorem exponent?_length {s rest : List Char} {e : Option (Bool × List Nat)}
    (h : exponent? s = some (e, rest)) : rest.length ≤ s.length := by
  unfold exponent? at h
  split at h
  · simp_all
  · split at h
    · rename_i r _
      obtain ⟨⟨ds, rest'⟩, hd, h⟩ := Option.map_eq_some_iff.1 h
      have := Decimal.some?_length hd
      have := exponentSign_length r
      grind
    · simp_all

/-- The numeral in front of a text without its sign. -/
def unsigned? (negative : Bool) (s : List Char) : Option (Numeral × List Char) := do
  let (whole, s) ← whole? s
  let (fraction, s) ← fraction? s
  let (exponent, s) ← exponent? s
  some (⟨negative, whole, fraction, exponent⟩, s)

theorem unsigned?_length {negative : Bool} {s rest : List Char} {n : Numeral}
    (h : unsigned? negative s = some (n, rest)) : rest.length < s.length := by
  simp only [unsigned?, Option.bind_eq_bind, Option.bind_eq_some_iff, Option.some.injEq,
    Prod.exists] at h
  obtain ⟨_, _, h₁, _, _, h₂, _, _, h₃, h⟩ := h
  have := whole?_length h₁
  have := fraction?_length h₂
  have := exponent?_length h₃
  grind

def read? : List Char → Option (Numeral × List Char)
  | '-' :: r => unsigned? true r
  | s => unsigned? false s

theorem read?_length {s rest : List Char} {n : Numeral} (h : read? s = some (n, rest)) :
    rest.length < s.length := by
  unfold read? at h
  split at h
  · have := unsigned?_length h
    rw [List.length_cons]
    omega
  · exact unsigned?_length h

/-- Appends digits to a significand while it fits 64 bits, and counts them. -/
def absorb (significand : Nat) : List Nat → Nat × Nat
  | [] => (significand, 0)
  | d :: ds =>
    if significand * 10 + d < UInt64.size then
      let (s, n) := absorb (significand * 10 + d) ds
      (s, n + 1)
    else (significand, 0)

def tenTo (n : Nat) : Float := Float.ofScientific 1 false n

/-- Division by `10 ^ n` in steps of the greatest power that the format holds. -/
def divide (x : Float) (n : Nat) : Float :=
  if n ≤ 308 then x / tenTo n
  else if x == 0 then x
  else divide (x / tenTo 308) (n - 308)
termination_by n
decreasing_by omega

/-- `significand * 10 ^ exponent` in floating point, unless it overflows. -/
def scale? (significand : Nat) (exponent : Int) : Option Float :=
  let x := significand.toUInt64.toFloat
  if exponent < 0 then some (divide x exponent.natAbs)
  else if exponent ≤ 308 then
    let y := x * tenTo exponent.toNat
    if y.isInf then none else some y
  else if significand = 0 then some x
  else none

/-- An exponent beyond 32 bits makes zero of what it does not overflow. -/
def scaleBy? (significand : Nat) (point : Int) : Option (Bool × List Nat) → Option Float
  | none => scale? significand point
  | some (negative, ds) =>
    let e := Decimal.value ds
    if UInt32.size / 2 ≤ e then if significand ≠ 0 ∧ ¬negative then none else some 0
    else scale? significand (if negative then point - e else point + e)

def value? (n : Numeral) : Option Number :=
  let (significand, taken) := absorb 0 n.whole
  let dropped := n.whole.length - taken
  if dropped = 0 ∧ n.fraction = [] ∧ n.exponent = none then
    if ¬n.negative then some (.natural significand.toUInt64)
    else if significand = 0 ∨ UInt64.size / 2 < significand then
      some (.float (-significand.toUInt64.toFloat))
    else some (.negative significand)
  else
    let (significand, taken) := absorb significand n.fraction
    (scaleBy? significand (dropped - taken) n.exponent).map fun x =>
      .float (if n.negative then -x else x)

end Numeral

/-- Floating-point numbers are written positionally from `0.00001` to below `1e+16`. -/
def floatLayout : Shortest.Layout := ⟨-5, 15⟩

def Number.chars : Number → List Char
  | .natural n => Decimal.chars n.toNat
  | .negative n => '-' :: Decimal.chars n
  | .float x => floatLayout.write x.toBits

end Json
end FlowLog
