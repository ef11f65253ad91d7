import FlowLog.Text.Decimal
import FlowLog.Time.Calendar

/-! Instants with microsecond resolution, read as coordinated universal time. A `Clock` is an instant
as date and time of day, a `Timestamp` its distance from the first moment of 1970. The range covers
the years -262143 to 262142. -/

namespace FlowLog

/-- Date and time of day. -/
structure Clock where
  date : Date
  hour : Nat
  minute : Nat
  second : Nat
  micro : Nat
  deriving DecidableEq, Repr

namespace Clock

def microsPerDay : Nat := 86400000000

/-- Days from the first of January of the year 0 to that of 1970. -/
def epochDay : Int := 719528

def valid (c : Clock) : Bool :=
  c.date.valid && c.hour < 24 && c.minute < 60 && c.second < 60 && c.micro < 1000000

def microOfDay (c : Clock) : Nat :=
  ((c.hour * 60 + c.minute) * 60 + c.second) * 1000000 + c.micro

def micros (c : Clock) : Int := (c.date.dayNumber - epochDay) * microsPerDay + c.microOfDay

def ofMicros (m : Int) : Clock :=
  let n := (m % microsPerDay).toNat
  let seconds := n / 1000000
  ⟨Date.ofDayNumber (m / microsPerDay + epochDay), seconds / 3600, seconds / 60 % 60, seconds % 60,
    n % 1000000⟩

/-- The date and the time of day so many seconds and nanoseconds after the first moment of 1970, if
dates have that year. -/
def ofSeconds? (seconds : Int) (nanos : Nat) : Option Clock :=
  let date := Date.ofDayNumber (seconds / 86400 + epochDay)
  let second := (seconds % 86400).toNat
  if -262143 ≤ date.year ∧ date.year ≤ 262142 then
    some ⟨date, second / 3600, second / 60 % 60, second % 60, nanos / 1000⟩
  else none

end Clock

structure Timestamp where
  micros : Int
  inRange : -8334601228800000000 ≤ micros ∧ micros ≤ 8210266876799999999
  deriving DecidableEq, Repr

namespace Timestamp

instance : LE Timestamp := ⟨fun a b => a.micros ≤ b.micros⟩
instance : LT Timestamp := ⟨fun a b => a.micros < b.micros⟩
instance (a b : Timestamp) : Decidable (a ≤ b) := inferInstanceAs (Decidable (a.micros ≤ b.micros))
instance (a b : Timestamp) : Decidable (a < b) := inferInstanceAs (Decidable (a.micros < b.micros))
instance : Ord Timestamp := ⟨fun a b => compare a.micros b.micros⟩

theorem lt_iff {a b : Timestamp} : a < b ↔ a.micros < b.micros := Iff.rfl

def ofClock? (c : Clock) : Option Timestamp :=
  if h : -8334601228800000000 ≤ c.micros ∧ c.micros ≤ 8210266876799999999 then
    some ⟨c.micros, h⟩
  else none

theorem ofClock?_eq_some_iff {c : Clock} {t : Timestamp} :
    ofClock? c = some t ↔ t.micros = c.micros := by
  obtain ⟨m, hm⟩ := t
  simp only [ofClock?, Option.dite_none_right_eq_some, Option.some.injEq, mk.injEq]
  exact ⟨fun ⟨_, h⟩ => h.symm, fun h => ⟨h ▸ hm, h.symm⟩⟩

/-- Whole seconds and the rest of one, which is never negative, give the date and the time of day. -/
def ofMicros? (m : Int) : Option Timestamp :=
  (Clock.ofSeconds? (m / 1000000) ((m % 1000000).toNat * 1000)).bind ofClock?

def microCount (t : Timestamp) : Int64 := .ofInt t.micros

@[simp] theorem microCount_toInt (t : Timestamp) : t.microCount.toInt = t.micros := by
  obtain ⟨hlow, hhigh⟩ := t.inRange
  exact Int64.toInt_ofInt_of_le (by omega) (by omega)

/-- Signed distance from `earlier`, in microseconds. It is a number of 64 bits, and goes around if the
two are further apart. -/
def since (t earlier : Timestamp) : Int := (t.microCount - earlier.microCount).toInt

theorem since_eq_bmod (t earlier : Timestamp) :
    t.since earlier = (t.micros - earlier.micros).bmod Int64.size := by
  rw [← t.microCount_toInt, ← earlier.microCount_toInt]
  exact Int64.toInt_sub t.microCount earlier.microCount

/-- The last instant from the first one. -/
example : since ⟨8210266876799999999, by decide⟩ ⟨-8334601228800000000, by decide⟩ =
    -1901875968109551617 := by
  decide

end Timestamp
end FlowLog
