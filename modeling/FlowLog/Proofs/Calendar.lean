import FlowLog.Time.Calendar
import Mathlib.Algebra.Ring.Nat
import Mathlib.Data.List.Basic

/-! The calendar and the count of days are inverse to each other. Every day lies in exactly one year
and in exactly one month of it, so a date that exists is found again from its number, and every
number is that of a date that exists. -/

namespace FlowLog
namespace Calendar

theorem daysBeforeYear_mono {y z : Int} (h : y ≤ z) : daysBeforeYear y ≤ daysBeforeYear z := by
  unfold daysBeforeYear
  omega

/-- The year that holds a day is the only one. -/
theorem yearOf_eq {y n : Int} (hfirst : daysBeforeYear y ≤ n)
    (hlast : n < daysBeforeYear (y + 1)) : yearOf n = y := by
  obtain ⟨hfirst', hlast'⟩ := yearOf_bounds n
  rcases Int.lt_trichotomy (yearOf n) y with h | h | h
  · have := daysBeforeYear_mono (y := yearOf n + 1) (z := y) h
    omega
  · exact h
  · have := daysBeforeYear_mono (y := y + 1) (z := yearOf n) h
    omega

/-- A year is as long as its months together. -/
theorem daysBeforeYear_add (y : Int) :
    daysBeforeYear (y + 1) = daysBeforeYear y + (monthLengths (isLeap y)).sum := by
  rw [daysBeforeYear_succ]
  cases isLeap y <;> rfl

/-! A day counted through the months, in both directions. -/

theorem locate_eq {m i d : Nat} {ls : List Nat} (h : d < ls[i]?.getD 0) :
    locate m ls ((ls.take i).sum + d) = (m + i, d + 1) := by
  induction ls generalizing m i with
  | nil => simp at h
  | cons l ls ih => cases i with
    | zero =>
      rw [List.getElem?_cons_zero, Option.getD_some] at h
      rw [List.take_zero, List.sum_nil, Nat.zero_add, locate, if_pos h]
      rfl
    | succ i =>
      rw [List.getElem?_cons_succ] at h
      rw [List.take_succ_cons, List.sum_cons, locate, if_neg (by omega), Nat.add_assoc,
        Nat.add_sub_cancel_left, ih h, Nat.add_assoc m, Nat.add_comm 1]

theorem exists_take_sum {d : Nat} {ls : List Nat} (h : d < ls.sum) :
    ∃ i e, e < ls[i]?.getD 0 ∧ (ls.take i).sum + e = d := by
  induction ls generalizing d with
  | nil => simp at h
  | cons l ls ih =>
    by_cases hd : d < l
    · exact ⟨0, d, by simpa using hd, by simp⟩
    · rw [List.sum_cons] at h
      obtain ⟨i, e, he, hsum⟩ := ih (d := d - l) (by omega)
      refine ⟨i + 1, e, by simpa using he, ?_⟩
      rw [List.take_succ_cons, List.sum_cons]
      omega

theorem take_sum_add_lt {i e : Nat} {ls : List Nat} (h : e < ls[i]?.getD 0) :
    (ls.take i).sum + e < ls.sum := by
  induction ls generalizing i with
  | nil => simp at h
  | cons l ls ih => cases i with
    | zero =>
      have hl : e < l := by simpa using h
      rw [List.take_zero, List.sum_nil, List.sum_cons]
      omega
    | succ i =>
      have := ih (i := i) (by simpa using h)
      rw [List.take_succ_cons, List.sum_cons, List.sum_cons]
      omega

theorem monthLength_succ (y : Int) (i : Nat) :
    monthLength y (i + 1) = (monthLengths (isLeap y))[i]?.getD 0 := if_neg (Nat.succ_ne_zero i)

theorem monthLength_le (y : Int) (m : Nat) : monthLength y m ≤ 31 := by
  have hlength : ∀ leap, ∀ l ∈ monthLengths leap, l ≤ 31 := by decide
  unfold monthLength
  split
  · exact Nat.zero_le 31
  · cases h : (monthLengths (isLeap y))[m - 1]? with
    | none => exact Nat.zero_le 31
    | some l => exact hlength _ l (List.mem_of_getElem? h)

end Calendar

namespace Date

open Calendar

theorem valid_iff {d : Date} : d.valid ↔
    1 ≤ d.month ∧ d.month ≤ 12 ∧ 1 ≤ d.day ∧ d.day ≤ monthLength d.year d.month := by
  simp [valid, and_assoc]

/-- A date that exists is found again. -/
theorem ofDayNumber_dayNumber {d : Date} (h : d.valid) : ofDayNumber d.dayNumber = d := by
  obtain ⟨y, _ | i, _ | e⟩ := d
  · simp [valid] at h
  · simp [valid] at h
  · simp [valid] at h
  obtain ⟨-, -, -, he⟩ := valid_iff.1 h
  have hmonth : e < (monthLengths (isLeap y))[i]?.getD 0 := (monthLength_succ y i).symm ▸ he
  have hsum := take_sum_add_lt hmonth
  have hyear := daysBeforeYear_add y
  have hnumber : dayNumber ⟨y, i + 1, e + 1⟩ =
      daysBeforeYear y + (((monthLengths (isLeap y)).take i).sum + e : Nat) := by
    rw [Int.natCast_add, ← Int.add_assoc]
    rfl
  -- The day lies before the end of its year, so the year is found first and then the month in it.
  rw [hnumber, ofDayNumber, yearOf_eq (y := y) (by omega) (by omega)]
  have hday (k : Nat) : (daysBeforeYear y + k - daysBeforeYear y).toNat = k := by omega
  dsimp only
  rw [hday, locate_eq hmonth, Nat.add_comm 1]

theorem exists_dayNumber (n : Int) : ∃ d : Date, d.valid ∧ d.dayNumber = n := by
  obtain ⟨hfirst, hlast⟩ := yearOf_bounds n
  have hyear := daysBeforeYear_add (yearOf n)
  have hday : (n - daysBeforeYear (yearOf n)).toNat < (monthLengths (isLeap (yearOf n))).sum := by
    omega
  obtain ⟨i, e, he, hsum⟩ := exists_take_sum hday
  have hlength : ∀ leap, (monthLengths leap).length = 12 := by decide
  -- Beyond the last month there is no day to be found.
  have hi : i < 12 := by
    by_contra hi
    rw [List.getElem?_eq_none (hlength _ ▸ Nat.le_of_not_lt hi)] at he
    exact Nat.not_lt_zero e he
  refine ⟨⟨yearOf n, i + 1, e + 1⟩, valid_iff.2 ⟨Nat.succ_pos i, hi, Nat.succ_pos e, ?_⟩, ?_⟩
  · rw [monthLength_succ]
    exact he
  · change daysBeforeYear (yearOf n) + (((monthLengths (isLeap (yearOf n))).take i).sum : Nat) +
      (e : Nat) = n
    omega

/-- Every number is that of the date it gives. -/
theorem dayNumber_ofDayNumber (n : Int) : (ofDayNumber n).dayNumber = n := by
  obtain ⟨d, hd, rfl⟩ := exists_dayNumber n
  rw [ofDayNumber_dayNumber hd]

theorem ofDayNumber_valid (n : Int) : (ofDayNumber n).valid := by
  obtain ⟨d, hd, rfl⟩ := exists_dayNumber n
  rw [ofDayNumber_dayNumber hd]
  exact hd

end Date
end FlowLog
