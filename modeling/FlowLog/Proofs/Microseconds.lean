import FlowLog.Proofs.Parsing

/-! Instants counted in microseconds. The count is cut into seconds and the rest of a second, rounded
down also before 1970, and the seconds into a date and a time of day; what comes out is the instant,
for all years that dates have. The text of an instant is read again if its year has four digits and
no sign; the text of any other is longer than the written form or begins with the sign. -/

namespace FlowLog
namespace Clock

def seconds (c : Clock) : Int :=
  (c.date.dayNumber - epochDay) * 86400 + ((c.hour * 60 + c.minute) * 60 + c.second : Nat)

theorem seconds_add_micro (c : Clock) : c.seconds * 1000000 + c.micro = c.micros := by
  rw [seconds, micros, microOfDay, microsPerDay]
  omega

/-- Cutting off the seconds first comes to the same date and time of day. -/
theorem ofSeconds?_eq (m : Int) :
    ofSeconds? (m / 1000000) ((m % 1000000).toNat * 1000) =
      if -262143 ≤ (ofMicros m).date.year ∧ (ofMicros m).date.year ≤ 262142 then some (ofMicros m)
      else none := by
  have hday : m / 1000000 / 86400 + epochDay = m / microsPerDay + epochDay := by
    rw [microsPerDay]
    omega
  have hsecond : (m / 1000000 % 86400).toNat = (m % microsPerDay).toNat / 1000000 := by
    rw [microsPerDay]
    omega
  have hmicro : (m % 1000000).toNat * 1000 / 1000 = (m % microsPerDay).toNat % 1000000 := by
    rw [microsPerDay]
    omega
  rw [ofSeconds?, hday, hsecond, hmicro]
  rfl

end Clock

/-- Years with a sign or with more than four digits leave the written form. -/
theorem Clock.chars_ne {c : Clock} (h : ¬ (0 ≤ c.date.year ∧ c.date.year ≤ 9999)) (f : Form) :
    c.chars ≠ f.chars := by
  intro he
  by_cases hsign : c.date.year < 0
  · -- The sign stands where the form has a digit.
    obtain ⟨d, r, hyear⟩ := List.exists_cons_of_length_eq_add_one f.year.length_eq
    have hd : d.isDigit := f.year.isDigit d (by rw [hyear]; exact List.mem_cons_self)
    rw [chars, yearChars, if_pos hsign, Form.chars, hyear] at he
    cases List.head_eq_of_cons_eq he
    exact absurd hd (by decide)
  · have hyear : 4 < (yearChars c.date.year).length := by
      rw [yearChars, if_neg hsign]
      exact Decimal.lt_length_padded (by omega)
    have hlength : c.chars.length = 26 := (congrArg List.length he).trans f.length_chars
    simp only [chars, List.length_append, List.length_cons] at hlength
    have hmonth := Decimal.le_length_padded 2 c.date.month
    have hday := Decimal.le_length_padded 2 c.date.day
    have hhour := Decimal.le_length_padded 2 c.hour
    have hminute := Decimal.le_length_padded 2 c.minute
    have hsecond := Decimal.le_length_padded 2 c.second
    have hmicro := Decimal.le_length_padded 6 c.micro
    omega

namespace Timestamp

/-- The years of the dates are the range of the microseconds. -/
theorem ofSeconds?_micros (m : Int) :
    Clock.ofSeconds? (m / 1000000) ((m % 1000000).toNat * 1000) =
      if -8334601228800000000 ≤ m ∧ m ≤ 8210266876799999999 then some (Clock.ofMicros m)
      else none := by
  have hyear := Clock.year_iff (Clock.ofMicros_valid m)
  rw [Clock.micros_ofMicros] at hyear
  rw [Clock.ofSeconds?_eq, if_congr hyear rfl rfl]

theorem ofMicros?_eq_some_iff {m : Int} {t : Timestamp} : ofMicros? m = some t ↔ t.micros = m := by
  rw [ofMicros?, ofSeconds?_micros]
  split
  · rw [Option.bind_some, ofClock?_eq_some_iff, Clock.micros_ofMicros]
  · rename_i hm
    refine ⟨nofun, ?_⟩
    rintro rfl
    exact absurd t.inRange hm

theorem isSome_ofMicros?_iff (m : Int) :
    (ofMicros? m).isSome ↔ -8334601228800000000 ≤ m ∧ m ≤ 8210266876799999999 := by
  simp only [Option.isSome_iff_exists, ofMicros?_eq_some_iff]
  constructor
  · rintro ⟨t, rfl⟩
    exact t.inRange
  · exact fun hm => ⟨⟨m, hm⟩, rfl⟩

theorem map_clock_ofMicros? (m : Int) : (ofMicros? m).map clock =
    Clock.ofSeconds? (m / 1000000) ((m % 1000000).toNat * 1000) := by
  rw [ofSeconds?_micros]
  split
  · rename_i hm
    rw [ofMicros?_eq_some_iff.2 (show (⟨m, hm⟩ : Timestamp).micros = m from rfl)]
    rfl
  · rename_i hm
    rw [← isSome_ofMicros?_iff, Option.not_isSome_iff_eq_none] at hm
    rw [hm]
    rfl

theorem parse_text_eq (t : Timestamp) :
    parse t.text = if t.HasShortYear then .ok t else .error (.invalidTimestamp t.text) := by
  by_cases hyear : t.HasShortYear
  · rw [if_pos hyear, parse, parse?_text hyear]
  · have hnone : parse? t.text = none := by
      rw [Option.eq_none_iff_forall_ne_some]
      intro u hu
      obtain ⟨f, htext, -, -⟩ := parse?_eq_some_iff.1 hu
      rw [Clock.Form.text_eq_iff, text, String.toList_ofList] at htext
      exact Clock.chars_ne hyear f htext
    rw [if_neg hyear, parse, hnone]

/-- Microseconds are an instant just in the range of the dates, which is that of the instant whose
seconds and fraction they are, and are counted back from its date and time of day without leaving
the 64 bits. What is read from a text is found again from its microseconds, and the text of an
instant is read just for the years 0 to 9999. -/
theorem micros_exact :
    (∀ m : Int64,
      ((ofMicros? m.toInt).isSome ↔
        -8334601228800000000 ≤ m.toInt ∧ m.toInt ≤ 8210266876799999999) ∧
      (ofMicros? m.toInt).map clock =
        Clock.ofSeconds? (m.toInt / 1000000) ((m.toInt % 1000000).toNat * 1000) ∧
      ∀ t ∈ ofMicros? m.toInt,
        t.micros = m.toInt ∧
        t.clock.seconds * 1000000 + t.clock.micro = m.toInt ∧
        Int64.minValue.toInt ≤ t.clock.seconds * 1000000 ∧
        parse t.text =
          if -62167219200000000 ≤ m.toInt ∧ m.toInt ≤ 253402300799999999 then .ok t
          else .error (.invalidTimestamp t.text)) ∧
    ∀ s t, parse s = .ok t →
      Clock.read? s.toList = some t.clock ∧ ofMicros? t.micros = some t := by
  refine ⟨fun m => ⟨isSome_ofMicros?_iff _, map_clock_ofMicros? _, fun t ht => ?_⟩,
    fun s t h => ?_⟩
  · have hmicros : t.micros = m.toInt := ofMicros?_eq_some_iff.1 ht
    have hsum : t.clock.seconds * 1000000 + t.clock.micro = m.toInt := by
      rw [Clock.seconds_add_micro, clock_micros, hmicros]
    have hmicro : t.clock.micro < 1000000 := (Clock.valid_iff.1 t.clock_valid).2.2.2.2
    have hlow : -8334601228800000000 ≤ m.toInt := hmicros ▸ t.inRange.1
    have hmin : Int64.minValue.toInt = -9223372036854775808 := by decide
    refine ⟨hmicros, hsum, by omega, ?_⟩
    simp only [parse_text_eq, hasShortYear_iff, hmicros]
  · obtain ⟨f, hs, -, hclock⟩ := parse?_eq_some_iff.1 (parse_eq_ok_iff.1 h)
    exact ⟨Clock.read?_eq_some_iff.2 ⟨f, Clock.Form.text_eq_iff.1 hs, hclock⟩,
      ofMicros?_eq_some_iff.2 rfl⟩

end Timestamp
end FlowLog
