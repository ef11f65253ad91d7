import FlowLog.Proofs.Instants

/-! The years of instants. Every year is a range of instants between the first moments of two years,
so bounds on the year of an instant are bounds on its microseconds. Four digits write the years from
0 to 9999, and dates reach from the year -262143 to 262142. -/

namespace FlowLog

open Calendar

theorem Date.dayNumber_bounds {d : Date} (h : d.valid) :
    daysBeforeYear d.year ≤ d.dayNumber ∧ d.dayNumber < daysBeforeYear (d.year + 1) := by
  have hyear : yearOf d.dayNumber = d.year := congrArg Date.year (ofDayNumber_dayNumber h)
  have hbounds := yearOf_bounds d.dayNumber
  rwa [hyear] at hbounds

theorem Date.le_year_iff {d : Date} (h : d.valid) (y : Int) :
    y ≤ d.year ↔ daysBeforeYear y ≤ d.dayNumber := by
  obtain ⟨hfirst, hlast⟩ := dayNumber_bounds h
  constructor
  · intro hy
    exact Int.le_trans (daysBeforeYear_mono hy) hfirst
  · intro hy
    by_contra hlt
    have hmono := daysBeforeYear_mono (y := d.year + 1) (z := y) (by omega)
    omega

namespace Clock

theorem le_year_iff {c : Clock} (h : c.valid) (y : Int) :
    y ≤ c.date.year ↔ (daysBeforeYear y - epochDay) * microsPerDay ≤ c.micros := by
  obtain ⟨hdate, hhour, hminute, hsecond, hmicro⟩ := valid_iff.1 h
  rw [Date.le_year_iff hdate, micros, microOfDay, microsPerDay]
  omega

/-- The years that dates have. -/
theorem year_iff {c : Clock} (h : c.valid) : -262143 ≤ c.date.year ∧ c.date.year ≤ 262142 ↔
    -8334601228800000000 ≤ c.micros ∧ c.micros ≤ 8210266876799999999 := by
  have hfirst := le_year_iff h (-262143)
  have hlast := le_year_iff h 262143
  rw [show daysBeforeYear (-262143) = -95745764 by decide, epochDay, microsPerDay] at hfirst
  rw [show daysBeforeYear 262143 = 95745765 by decide, epochDay, microsPerDay] at hlast
  omega

/-- The years that four digits write. -/
theorem shortYear_iff {c : Clock} (h : c.valid) : 0 ≤ c.date.year ∧ c.date.year ≤ 9999 ↔
    -62167219200000000 ≤ c.micros ∧ c.micros ≤ 253402300799999999 := by
  have hfirst := le_year_iff h 0
  have hlast := le_year_iff h 10000
  rw [show daysBeforeYear 0 = 0 by decide, epochDay, microsPerDay] at hfirst
  rw [show daysBeforeYear 10000 = 3652425 by decide, epochDay, microsPerDay] at hlast
  omega

end Clock

namespace Timestamp

/-- Date and time of day of an instant. -/
def clock (t : Timestamp) : Clock := .ofMicros t.micros

theorem clock_valid (t : Timestamp) : t.clock.valid := Clock.ofMicros_valid t.micros

@[simp] theorem clock_micros (t : Timestamp) : t.clock.micros = t.micros :=
  Clock.micros_ofMicros t.micros

theorem hasShortYear_iff (t : Timestamp) :
    t.HasShortYear ↔ -62167219200000000 ≤ t.micros ∧ t.micros ≤ 253402300799999999 := by
  rw [← t.clock_micros]
  exact Clock.shortYear_iff t.clock_valid

/-- Every date of those years with a time of day is an instant. -/
theorem exists_clock_eq {c : Clock} (h : c.valid)
    (hyear : -262143 ≤ c.date.year ∧ c.date.year ≤ 262142) : ∃ t : Timestamp, t.clock = c :=
  ⟨⟨c.micros, (Clock.year_iff h).1 hyear⟩, Clock.ofMicros_micros h⟩

end Timestamp
end FlowLog
