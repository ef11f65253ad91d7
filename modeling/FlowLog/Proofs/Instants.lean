import FlowLog.Proofs.Calendar
import FlowLog.Proofs.WrittenForm

/-! Instants and their written form. An instant and its date and time of day determine each other.
A text holds the four digits of a year without a sign, so exactly the instants of the years 0 to
9999 are read back from what is written for them. -/

namespace FlowLog
namespace Clock

theorem valid_iff {c : Clock} : c.valid ↔
    c.date.valid ∧ c.hour < 24 ∧ c.minute < 60 ∧ c.second < 60 ∧ c.micro < 1000000 := by
  simp [valid, and_assoc]

theorem micros_ofMicros (m : Int) : (ofMicros m).micros = m := by
  simp only [ofMicros, micros, microOfDay, Date.dayNumber_ofDayNumber, microsPerDay]
  omega

theorem ofMicros_valid (m : Int) : (ofMicros m).valid := by
  refine valid_iff.2 ⟨Date.ofDayNumber_valid _, ?_⟩
  simp only [ofMicros, microsPerDay]
  omega

theorem ofMicros_micros {c : Clock} (h : c.valid) : ofMicros c.micros = c := by
  obtain ⟨d, hour, minute, second, micro⟩ := c
  obtain ⟨hd, htime⟩ := valid_iff.1 h
  dsimp only at hd htime
  -- The time of day as one number: it is less than a day, whatever it consists of.
  obtain ⟨n, hn⟩ : ∃ n : Nat, n = ((hour * 60 + minute) * 60 + second) * 1000000 + micro := ⟨_, rfl⟩
  have hmicros : micros ⟨d, hour, minute, second, micro⟩ =
      (d.dayNumber - epochDay) * microsPerDay + n := by rw [hn]; rfl
  have hday : ((d.dayNumber - epochDay) * microsPerDay + n) / microsPerDay + epochDay =
      d.dayNumber := by
    simp only [microsPerDay]
    omega
  have htoday : (((d.dayNumber - epochDay) * microsPerDay + n) % microsPerDay).toNat = n := by
    simp only [microsPerDay]
    omega
  rw [hmicros, ofMicros, hday, htoday, Date.ofDayNumber_dayNumber hd]
  simp only [Clock.mk.injEq, true_and]
  omega

/-- A clock is written in the form when its year has four digits and no sign. -/
theorem exists_form {c : Clock} (h : c.valid) (hyear : 0 ≤ c.date.year ∧ c.date.year ≤ 9999) :
    ∃ f : Form, f.clock = c := by
  obtain ⟨⟨y, month, day⟩, hour, minute, second, micro⟩ := c
  obtain ⟨hdate, hhour, hminute, hsecond, hmicro⟩ := valid_iff.1 h
  obtain ⟨-, hmonth, -, hday⟩ := Date.valid_iff.1 hdate
  dsimp only at hyear hmonth hday hhour hminute hsecond hmicro
  have hday' := Calendar.monthLength_le y month
  lift y to Nat using hyear.1
  have htwo (n : Nat) (hn : n < 100) : ∃ b : Decimal.Block 2, b.number = n :=
    Decimal.exists_block_number (by decide) hn
  obtain ⟨year, rfl⟩ := Decimal.exists_block_number (n := y) (by decide) (show y < 10 ^ 4 by omega)
  obtain ⟨month, rfl⟩ := htwo month (by omega)
  obtain ⟨day, rfl⟩ := htwo day (by omega)
  obtain ⟨hour, rfl⟩ := htwo hour (by omega)
  obtain ⟨minute, rfl⟩ := htwo minute (by omega)
  obtain ⟨second, rfl⟩ := htwo second (by omega)
  obtain ⟨micro, rfl⟩ := Decimal.exists_block_number (n := micro) (by decide)
    (show micro < 10 ^ 6 by omega)
  exact ⟨⟨year, month, day, hour, minute, second, micro⟩, rfl⟩

/-- A clock is read from its text when its year has four digits and no sign. -/
theorem read?_chars {c : Clock} (h : c.valid) (hyear : 0 ≤ c.date.year ∧ c.date.year ≤ 9999) :
    read? c.chars = some c := by
  obtain ⟨f, rfl⟩ := exists_form h hyear
  exact read?_eq_some_iff.2 ⟨f, f.chars_clock, rfl⟩

/-- No text gives a year of more digits. -/
theorem read?_year {s : List Char} {c : Clock} (h : read? s = some c) :
    0 ≤ c.date.year ∧ c.date.year ≤ 9999 := by
  obtain ⟨f, -, rfl⟩ := read?_eq_some_iff.1 h
  have hyear : f.year.number < 10000 := f.year.number_lt
  simp only [Form.clock]
  omega

end Clock

namespace Timestamp

def year (t : Timestamp) : Int := (Clock.ofMicros t.micros).date.year

/-- The years that four digits write. -/
def HasShortYear (t : Timestamp) : Prop := 0 ≤ t.year ∧ t.year ≤ 9999

instance (t : Timestamp) : Decidable t.HasShortYear :=
  inferInstanceAs (Decidable (0 ≤ t.year ∧ t.year ≤ 9999))

theorem read?_text {t : Timestamp} (h : t.HasShortYear) :
    Clock.read? t.text.toList = some (Clock.ofMicros t.micros) := by
  rw [text, String.toList_ofList]
  exact Clock.read?_chars (Clock.ofMicros_valid t.micros) h

@[simp] theorem ofClock?_ofMicros (t : Timestamp) : ofClock? (.ofMicros t.micros) = some t :=
  ofClock?_eq_some_iff.2 (Clock.micros_ofMicros t.micros).symm

theorem parse?_text {t : Timestamp} (h : t.HasShortYear) : parse? t.text = some t := by
  simp only [parse?, read?_text h, Option.bind_eq_bind, Option.bind_some, Clock.ofMicros_valid,
    if_true, ofClock?_ofMicros]

theorem parse?_hasShortYear {s : String} {t : Timestamp} (h : parse? s = some t) :
    t.HasShortYear := by
  simp only [parse?, Option.bind_eq_bind, Option.bind_eq_some_iff,
    Option.ite_none_right_eq_some] at h
  obtain ⟨c, hread, hvalid, ht⟩ := h
  rw [ofClock?_eq_some_iff] at ht
  rw [HasShortYear, year, ht, Clock.ofMicros_micros hvalid]
  exact Clock.read?_year hread

end Timestamp
end FlowLog
