import FlowLog.Event.Decode
import FlowLog.Proofs.Years
import Mathlib.Tactic.IntervalCases

/-! Which texts are timestamps. Of the texts in the written form they are those whose numbers are a
date of the calendar and a time of day, and each is the text of the instant that is read from it. -/

namespace FlowLog

/-- The length of a month in the years from 0 on; the year 0 is a leap year. -/
def Calendar.daysIn (year month : Nat) : Nat :=
  if month = 2 then if 4 ∣ year ∧ (¬ 100 ∣ year ∨ 400 ∣ year) then 29 else 28
  else if month ∈ [4, 6, 9, 11] then 30
  else 31

theorem Calendar.monthLength_eq_daysIn (y : Nat) {m : Nat} (hm : 1 ≤ m ∧ m ≤ 12) :
    monthLength y m = daysIn y m := by
  have hleap : isLeap y = decide (4 ∣ y ∧ (¬ 100 ∣ y ∨ 400 ∣ y)) := by
    rw [isLeap, Bool.eq_iff_iff]
    simp only [Bool.and_eq_true, Bool.or_eq_true, decide_eq_true_eq]
    omega
  obtain ⟨hfirst, hlast⟩ := hm
  interval_cases m <;> simp [monthLength, monthLengths, daysIn, hleap]

namespace Clock.Form

/-- The numbers are a date of the calendar and a time of day. -/
def IsInstant (f : Form) : Prop :=
  (1 ≤ f.month.number ∧ f.month.number ≤ 12) ∧
  (1 ≤ f.day.number ∧ f.day.number ≤ Calendar.daysIn f.year.number f.month.number) ∧
  f.hour.number < 24 ∧ f.minute.number < 60 ∧ f.second.number < 60

theorem valid_clock_iff (f : Form) : f.clock.valid ↔ f.IsInstant := by
  rw [valid_iff, Date.valid_iff]
  constructor
  · rintro ⟨⟨hfirst, hlast, hday, hlength⟩, hhour, hminute, hsecond, -⟩
    have hdays := Calendar.monthLength_eq_daysIn f.year.number ⟨hfirst, hlast⟩
    exact ⟨⟨hfirst, hlast⟩, ⟨hday, hdays ▸ hlength⟩, hhour, hminute, hsecond⟩
  · rintro ⟨hmonth, ⟨hday, hlength⟩, hhour, hminute, hsecond⟩
    have hdays := Calendar.monthLength_eq_daysIn f.year.number hmonth
    exact ⟨⟨hmonth.1, hmonth.2, hday, hdays ▸ hlength⟩, hhour, hminute, hsecond, f.micro.number_lt⟩

end Clock.Form

namespace Timestamp

theorem wellFormed_iff {s : String} : wellFormed s ↔ ∃ f : Clock.Form, s = f.text := by
  rw [wellFormed, Option.isSome_iff_exists]
  simp only [Clock.read?_eq_some_iff, Clock.Form.text_eq_iff]
  constructor
  · rintro ⟨_, f, hs, -⟩
    exact ⟨f, hs⟩
  · rintro ⟨f, hs⟩
    exact ⟨_, f, hs, rfl⟩

theorem parse?_eq_some_iff {s : String} {t : Timestamp} :
    parse? s = some t ↔ ∃ f : Clock.Form, s = f.text ∧ f.IsInstant ∧ t.clock = f.clock := by
  simp only [parse?, Option.bind_eq_bind, Option.bind_eq_some_iff, Clock.read?_eq_some_iff,
    Option.ite_none_right_eq_some, Clock.Form.text_eq_iff]
  constructor
  · rintro ⟨_, ⟨f, hs, rfl⟩, hvalid, ht⟩
    rw [ofClock?_eq_some_iff] at ht
    refine ⟨f, hs, f.valid_clock_iff.1 hvalid, ?_⟩
    rw [clock, ht, Clock.ofMicros_micros hvalid]
  · rintro ⟨f, hs, hf, ht⟩
    refine ⟨_, ⟨f, hs, rfl⟩, f.valid_clock_iff.2 hf, ?_⟩
    rw [ofClock?_eq_some_iff, ← ht, clock_micros]

theorem parse_eq_ok_iff {s : String} {t : Timestamp} : parse s = .ok t ↔ parse? s = some t := by
  unfold parse
  cases parse? s <;> simp

theorem text_eq_of_clock {t : Timestamp} {f : Clock.Form} (h : t.clock = f.clock) :
    t.text = f.text := by
  rw [text, ← clock, h, f.chars_clock, Clock.Form.text]

theorem exists_clock_eq_of_isInstant {f : Clock.Form} (h : f.IsInstant) :
    ∃ t : Timestamp, t.clock = f.clock := by
  apply exists_clock_eq (f.valid_clock_iff.2 h)
  have hyear : f.year.number < 10000 := f.year.number_lt
  simp only [Clock.Form.clock]
  omega

/-- Exactly the texts `DDDD/DD/DD DD:DD:DD.DDDDDD` are well formed, and exactly those of them that
name a date and a time of day are read, as the instant that is written so. All others are refused
with their text. -/
theorem parse_written (s : String) :
    (wellFormed s ↔ ∃ f : Clock.Form, s = f.text) ∧
    match parse s with
    | .ok t => wellFormed s ∧ t.text = s ∧
        ∃ f : Clock.Form, s = f.text ∧ f.IsInstant ∧ t.clock = f.clock
    | .error e => (¬ ∃ f : Clock.Form, s = f.text ∧ f.IsInstant) ∧ e = .invalidTimestamp s := by
  refine ⟨wellFormed_iff, ?_⟩
  cases h : parse? s with
  | none =>
    simp only [parse, h, and_true]
    rintro ⟨f, hs, hf⟩
    obtain ⟨t, ht⟩ := exists_clock_eq_of_isInstant hf
    have hsome := parse?_eq_some_iff.2 ⟨f, hs, hf, ht⟩
    simp [h] at hsome
  | some t =>
    obtain ⟨f, hs, hf, ht⟩ := parse?_eq_some_iff.1 h
    simp only [parse, h]
    exact ⟨wellFormed_iff.2 ⟨f, hs⟩, (text_eq_of_clock ht).trans hs.symm, f, hs, hf, ht⟩

/-- The year 0 has a 29th of February, 1900 has none. -/
example : (parse? "0000/02/29 23:59:59.999999").isSome ∧
    parse? "1900/02/29 00:00:00.000000" = none := by
  decide

end Timestamp
end FlowLog
