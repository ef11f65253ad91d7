/-! The proleptic Gregorian calendar. Days are counted from the first day of the year 0, which is a
leap year; `dayNumber` counts the days before a date and `Date.ofDayNumber` finds the date again. -/

namespace FlowLog

structure Date where
  year : Int
  month : Nat
  day : Nat
  deriving DecidableEq, Repr

namespace Calendar

def isLeap (y : Int) : Bool := y % 4 = 0 && (y % 100 ≠ 0 || y % 400 = 0)

def monthLengths (leap : Bool) : List Nat :=
  [31, if leap then 29 else 28, 31, 30, 31, 30, 31, 31, 30, 31, 30, 31]

/-- Days in a month of the year; a number that is no month has none. -/
def monthLength (y : Int) (m : Nat) : Nat :=
  if m = 0 then 0 else (monthLengths (isLeap y))[m - 1]?.getD 0

/-- Days before the first of January, negative before the year 0. -/
def daysBeforeYear (y : Int) : Int := 365 * y + (y + 3) / 4 - (y + 99) / 100 + (y + 399) / 400

theorem daysBeforeYear_succ (y : Int) :
    daysBeforeYear (y + 1) = daysBeforeYear y + if isLeap y then 366 else 365 := by
  unfold daysBeforeYear isLeap
  split <;> rename_i h <;> simp at h <;> omega

/-- Days before the first of a month within its year. -/
def daysBeforeMonth (y : Int) (m : Nat) : Nat := ((monthLengths (isLeap y)).take (m - 1)).foldr (· + ·) 0

/-- The year that holds a day: the average year gives it up to one year. -/
def yearOf (n : Int) : Int :=
  let y := n * 400 / 146097
  if n < daysBeforeYear y then y - 1
  else if daysBeforeYear (y + 1) ≤ n then y + 1
  else y

theorem yearOf_bounds (n : Int) :
    daysBeforeYear (yearOf n) ≤ n ∧ n < daysBeforeYear (yearOf n + 1) := by
  unfold yearOf
  simp only
  split
  · rename_i h
    rw [Int.sub_add_cancel]
    refine ⟨?_, h⟩
    unfold daysBeforeYear at h ⊢
    omega
  · split
    · rename_i h h'
      refine ⟨h', ?_⟩
      unfold daysBeforeYear at h h' ⊢
      omega
    · omega

/-- Finds the month, counted from `m`, and the day from one that lie `d` days into the months of
the given lengths. -/
def locate (m : Nat) : List Nat → Nat → Nat × Nat
  | [], d => (m, d + 1)
  | l :: ls, d => if d < l then (m, d + 1) else locate (m + 1) ls (d - l)

end Calendar

namespace Date

open Calendar

def valid (d : Date) : Bool :=
  1 ≤ d.month && d.month ≤ 12 && 1 ≤ d.day && d.day ≤ monthLength d.year d.month

def dayNumber (d : Date) : Int :=
  daysBeforeYear d.year + daysBeforeMonth d.year d.month + (d.day - 1 : Nat)

def ofDayNumber (n : Int) : Date :=
  let y := yearOf n
  let (m, d) := locate 1 (monthLengths (isLeap y)) (n - daysBeforeYear y).toNat
  ⟨y, m, d⟩

end Date
end FlowLog
