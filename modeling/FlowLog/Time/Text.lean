import FlowLog.Time.Timestamp

/-! Written timestamps, `YYYY/MM/DD hh:mm:ss.uuuuuu`. Reading takes exactly this form with ASCII
digits and then a date and time that exist; writing pads every field with zeros to its width, the
year to four characters with its sign. -/

namespace FlowLog
namespace Clock

/-- A number of exactly `width` digits. -/
def field? (width : Nat) (s : List Char) : Option (Nat × List Char) :=
  (Decimal.fixed? width s).map fun (ds, rest) => (Decimal.value ds, rest)

def mark? (c : Char) : List Char → Option (List Char)
  | [] => none
  | d :: r => if c = d then some r else none

/-- The fields of a text in the written form, whether or not they name an instant. -/
def read? (s : List Char) : Option Clock := do
  let (year, s) ← field? 4 s
  let s ← mark? '/' s
  let (month, s) ← field? 2 s
  let s ← mark? '/' s
  let (day, s) ← field? 2 s
  let s ← mark? ' ' s
  let (hour, s) ← field? 2 s
  let s ← mark? ':' s
  let (minute, s) ← field? 2 s
  let s ← mark? ':' s
  let (second, s) ← field? 2 s
  let s ← mark? '.' s
  let (micro, s) ← field? 6 s
  if s = [] then some ⟨⟨year, month, day⟩, hour, minute, second, micro⟩ else none

def yearChars (y : Int) : List Char :=
  if y < 0 then '-' :: Decimal.padded 3 y.natAbs else Decimal.padded 4 y.natAbs

def chars (c : Clock) : List Char :=
  yearChars c.date.year ++ '/' :: Decimal.padded 2 c.date.month ++ '/' ::
    Decimal.padded 2 c.date.day ++ ' ' :: Decimal.padded 2 c.hour ++ ':' ::
    Decimal.padded 2 c.minute ++ ':' :: Decimal.padded 2 c.second ++ '.' ::
    Decimal.padded 6 c.micro

end Clock

namespace Timestamp

def wellFormed (s : String) : Bool := (Clock.read? s.toList).isSome

def parse? (s : String) : Option Timestamp := do
  let c ← Clock.read? s.toList
  if c.valid then ofClock? c else none

def text (t : Timestamp) : String := String.ofList (Clock.ofMicros t.micros).chars

end Timestamp
end FlowLog
