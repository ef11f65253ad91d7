import FlowLog.Proofs.ByteOrder
import FlowLog.Proofs.Events
import Mathlib.Data.List.Lex

/-! The order of instants in all their forms. Fields of digits are in the order of their numbers,
and they stand in a text from the greatest unit to the least, so texts are in the order of date and
time of day. Microseconds grow with the first field that differs: a later year or month begins after
every day of an earlier one, and a day is longer than any time of day. -/

namespace FlowLog

namespace Decimal

/-- Digits in equally many places are in the order of their numbers. -/
theorem value_lt_iff {ds es : List Nat} (hds : ∀ d ∈ ds, d < 10) (hes : ∀ d ∈ es, d < 10)
    (hlength : ds.length = es.length) : value ds < value es ↔ ds < es := by
  induction ds using List.reverseRecOn generalizing es with
  | nil =>
    obtain rfl := List.length_eq_zero_iff.1 hlength.symm
    simp
  | append_singleton ds d ih =>
    obtain rfl | ⟨es, e, rfl⟩ := es.eq_nil_or_concat'
    · simp at hlength
    · have hlength : ds.length = es.length := by simpa using hlength
      have hd : d < 10 := hds d List.mem_concat_self
      have he : e < 10 := hes e List.mem_concat_self
      have hds : ∀ d ∈ ds, d < 10 := fun x hx => hds x (List.mem_append_left _ hx)
      have hes : ∀ d ∈ es, d < 10 := fun x hx => hes x (List.mem_append_left _ hx)
      have heq : value ds = value es ↔ ds = es := ⟨value_inj hds hes hlength, congrArg value⟩
      rw [value_concat, value_concat, append_lt_append_iff hlength, ← ih hds hes hlength, ← heq,
        List.cons_lt_cons_iff]
      simp only [List.lt_irrefl, and_false, or_false]
      omega

namespace Block

variable {width : Nat} {b b' : Block width}

theorem chars_lt_iff : b.chars < b'.chars ↔ b.number < b'.number := by
  have hdigit (b : Block width) : ∀ c ∈ b.chars, 48 ≤ c.toNat := fun c hc =>
    (Char.isDigit_iff_toNat.1 (b.isDigit c hc)).1
  rw [number, number, value_lt_iff b.digits_lt b'.digits_lt
    (b.digits_length.trans b'.digits_length.symm), digits, digits]
  refine (map_lt_map_iff fun c hc d hd => ?_).symm
  have hc := hdigit b c hc
  have hd := hdigit b' d hd
  rw [Char.lt_def, UInt32.lt_iff_toNat_lt, Char.toNat_val, Char.toNat_val, ← Char.toNat_inj]
  omega

theorem chars_inj (hwidth : 0 < width) : b.chars = b'.chars ↔ b.number = b'.number := by
  constructor
  · intro h
    rw [number, number, digits, digits, h]
  · intro h
    rw [← padded_number hwidth b, ← padded_number hwidth b', h]

theorem append_lt_iff (hwidth : 0 < width) {s t : List Char} :
    b.chars ++ s < b'.chars ++ t ↔ b.number < b'.number ∨ b.number = b'.number ∧ s < t := by
  rw [append_lt_append_iff (b.length_eq.trans b'.length_eq.symm), chars_lt_iff, chars_inj hwidth]

end Block
end Decimal

namespace Calendar

/-- A day of an earlier month comes before the first of a later one. -/
theorem daysBeforeMonth_add_lt {y : Int} {m m' e : Nat} (hm : 1 ≤ m) (h : m < m')
    (he : e < monthLength y m) : daysBeforeMonth y m + e < daysBeforeMonth y m' := by
  obtain ⟨i, rfl⟩ : ∃ i, m = i + 1 := ⟨m - 1, by omega⟩
  obtain ⟨j, rfl⟩ : ∃ j, m' = j + 1 := ⟨m' - 1, by omega⟩
  have hij : i < j := Nat.lt_of_succ_lt_succ h
  rw [monthLength_succ, ← List.getElem?_take_of_lt hij] at he
  have hlt := take_sum_add_lt he
  rwa [List.take_take, Nat.min_eq_left (Nat.le_of_lt hij)] at hlt

end Calendar

namespace Date

open Calendar

def fields (d : Date) : List Int := [d.year, d.month, d.day]

theorem fields_lt_iff {d e : Date} : d.fields < e.fields ↔
    d.year < e.year ∨ d.year = e.year ∧
      (d.month < e.month ∨ d.month = e.month ∧ d.day < e.day) := by
  simp [fields, List.cons_lt_cons_iff]

theorem fields_inj {d e : Date} : d.fields = e.fields ↔ d = e := by
  obtain ⟨y, m, a⟩ := d
  obtain ⟨y', m', a'⟩ := e
  simp [fields]

/-- Years are told apart by their first days, months of one year by theirs. -/
theorem dayNumber_lt {d e : Date} (hd : d.valid) (he : e.valid) (h : d.fields < e.fields) :
    d.dayNumber < e.dayNumber := by
  obtain ⟨hmonth, -, hday, hlength⟩ := valid_iff.1 hd
  obtain ⟨-, -, hday', -⟩ := valid_iff.1 he
  rcases fields_lt_iff.1 h with hyear | ⟨hyear, hlt | ⟨heq, hlt⟩⟩
  · have hlast := (dayNumber_bounds hd).2
    have hfirst := (dayNumber_bounds he).1
    have hmono := daysBeforeYear_mono (y := d.year + 1) (z := e.year) hyear
    omega
  · have hmonths := daysBeforeMonth_add_lt (y := d.year) (e := d.day - 1) hmonth hlt (by omega)
    rw [dayNumber, dayNumber, ← hyear]
    omega
  · rw [dayNumber, dayNumber, ← hyear, ← heq]
    omega

theorem dayNumber_inj {d e : Date} (hd : d.valid) (he : e.valid) :
    d.dayNumber = e.dayNumber ↔ d = e :=
  ⟨fun h => by rw [← ofDayNumber_dayNumber hd, h, ofDayNumber_dayNumber he], congrArg dayNumber⟩

theorem dayNumber_lt_iff {d e : Date} (hd : d.valid) (he : e.valid) :
    d.dayNumber < e.dayNumber ↔ d.fields < e.fields := by
  refine ⟨fun hlt => ?_, dayNumber_lt hd he⟩
  rcases lt_trichotomy d.fields e.fields with h | h | h
  · exact h
  · rw [fields_inj.1 h] at hlt
    exact absurd hlt (Int.lt_irrefl _)
  · exact absurd (dayNumber_lt he hd h) (Int.lt_asymm hlt)

end Date

namespace Clock

def timeFields (c : Clock) : List Int := [c.hour, c.minute, c.second, c.micro]

def fields (c : Clock) : List Int := c.date.fields ++ c.timeFields

/-- The marks stand in the same places, so the first field that differs decides. -/
theorem Form.chars_lt_iff {f g : Form} : f.chars < g.chars ↔ f.clock.fields < g.clock.fields := by
  simp (disch := decide) only [chars, List.append_assoc, List.cons_append, List.nil_append,
    Decimal.Block.append_lt_iff, Decimal.Block.chars_lt_iff, fields, Date.fields, timeFields, clock,
    List.cons_lt_cons_iff, Int.ofNat_lt, Int.ofNat_inj, List.lt_irrefl, Char.lt_irrefl, true_and,
    and_false, false_or, or_false]

theorem microOfDay_lt {c : Clock} (h : c.valid) : c.microOfDay < microsPerDay := by
  obtain ⟨-, hhour, hminute, hsecond, hmicro⟩ := valid_iff.1 h
  rw [microOfDay, microsPerDay]
  omega

theorem microOfDay_lt_iff {c d : Clock} (hc : c.valid) (hd : d.valid) :
    c.microOfDay < d.microOfDay ↔ c.timeFields < d.timeFields := by
  obtain ⟨-, -, hminute, hsecond, hmicro⟩ := valid_iff.1 hc
  obtain ⟨-, -, hminute', hsecond', hmicro'⟩ := valid_iff.1 hd
  have hfields : c.timeFields < d.timeFields ↔ c.hour < d.hour ∨ c.hour = d.hour ∧
      (c.minute < d.minute ∨ c.minute = d.minute ∧
        (c.second < d.second ∨ c.second = d.second ∧ c.micro < d.micro)) := by
    simp [timeFields, List.cons_lt_cons_iff]
  rw [hfields, microOfDay, microOfDay]
  omega

/-- The microseconds grow with the first field that differs. -/
theorem micros_lt_iff {c d : Clock} (hc : c.valid) (hd : d.valid) :
    c.micros < d.micros ↔ c.fields < d.fields := by
  have hdate := (valid_iff.1 hc).1
  have hdate' := (valid_iff.1 hd).1
  have htime := microOfDay_lt hc
  have htime' := microOfDay_lt hd
  have hlength : c.date.fields.length = d.date.fields.length := rfl
  rw [fields, fields, append_lt_append_iff hlength, ← microOfDay_lt_iff hc hd,
    ← Date.dayNumber_lt_iff hdate hdate', Date.fields_inj, ← Date.dayNumber_inj hdate hdate',
    micros, micros]
  rw [microsPerDay] at *
  omega

end Clock

theorem cmp_eq_cmp_of_lt_iff {α β : Type} [LT α] [LT β] [DecidableLT α] [DecidableLT β] {a b : α}
    {c d : β} (h : a < b ↔ c < d) (h' : b < a ↔ d < c) : cmp a b = cmp c d := by
  simp only [cmp, cmpUsing, h, h']

namespace Timestamp

variable {t u : Timestamp}

theorem microCount_lt_iff : t.microCount < u.microCount ↔ t < u := by
  rw [Int64.lt_iff_toInt_lt, microCount_toInt, microCount_toInt, lt_iff]

theorem fields_lt_iff : t.clock.fields < u.clock.fields ↔ t < u := by
  rw [← Clock.micros_lt_iff t.clock_valid u.clock_valid, clock_micros, clock_micros, lt_iff]

theorem WrittenAs.encode_lt_iff {a b : String} (ht : t.WrittenAs a) (hu : u.WrittenAs b) :
    Utf8.encode a.toList < Utf8.encode b.toList ↔ t < u := by
  obtain ⟨f, hf, -, ht⟩ := ht
  obtain ⟨g, hg, -, hu⟩ := hu
  rw [Utf8.encode_lt_iff, Clock.Form.text_eq_iff.1 hf, Clock.Form.text_eq_iff.1 hg,
    Clock.Form.chars_lt_iff, ← ht, ← hu, fields_lt_iff]

/-- Years of four digits lie so close together that differences do not leave the 64 bits. -/
theorem since_eq_sub (ht : t.HasShortYear) (hu : u.HasShortYear) :
    t.since u = t.micros - u.micros := by
  rw [hasShortYear_iff] at ht hu
  rw [since_eq_bmod, Int64.size]
  exact Int.bmod_eq_of_le (by omega) (by omega)

theorem since_neg_iff (ht : t.HasShortYear) (hu : u.HasShortYear) : t.since u < 0 ↔ t < u := by
  rw [since_eq_sub ht hu, lt_iff]
  omega

/-- What is read from texts compares as the texts do by their bytes, and as the dates with their
times of day and the microseconds do; and the microseconds between two such instants fit into 64
bits. So the duration of a connection is exact for every end that a record gives, and negative just
if the creation lies after the end. -/
theorem orders_agree :
    (∀ a b t u, parse a = .ok t → parse b = .ok u →
      cmp (Utf8.encode a.toList) (Utf8.encode b.toList) = compare t u ∧
      cmp t.clock.fields u.clock.fields = compare t u ∧
      cmp t.microCount u.microCount = compare t u ∧
      t.microCount.toInt = t.micros ∧
      (t.microCount - u.microCount).toInt = t.since u ∧ t.since u = t.micros - u.micros) ∧
    ∀ (r : Record) (b : Base) (p : Ports) (c : Closing),
      (Event.parse r = .ok ⟨b, .tcpEnd p c⟩ ∨ Kind.tcpEnd.read r = .ok ⟨b, .tcpEnd p c⟩) →
        (∃ s, r.get .date = some s ∧ parse s = .ok b.time) ∧
        (∃ s, r.get .creation = some s ∧ parse s = .ok c.creation) ∧
        (b.time.microCount - c.creation.microCount).toInt = c.duration b.time ∧
        c.duration b.time = b.time.micros - c.creation.micros ∧
        (c.duration b.time < 0 ↔ b.time < c.creation) := by
  constructor
  · intro a b t u ht hu
    rw [parse_eq_ok] at ht hu
    have hcompare : cmp t.micros u.micros = compare t u := cmp_eq_compare t.micros u.micros
    rw [← hcompare]
    exact ⟨cmp_eq_cmp_of_lt_iff (ht.encode_lt_iff hu) (hu.encode_lt_iff ht),
      cmp_eq_cmp_of_lt_iff fields_lt_iff fields_lt_iff,
      cmp_eq_cmp_of_lt_iff microCount_lt_iff microCount_lt_iff, t.microCount_toInt,
      rfl, since_eq_sub ht.hasShortYear hu.hasShortYear⟩
  · intro r b p c h
    have hr : r.Describes ⟨b, .tcpEnd p c⟩ :=
      h.elim (fun h => (Event.parse_eq_ok.1 h).2) fun h => (Kind.read_eq_ok.1 h).2.2
    obtain ⟨s, hs, ht⟩ := hr.base.time
    obtain ⟨-, ⟨s', hs', hu⟩, -⟩ := hr.detail
    exact ⟨⟨s, hs, parse_eq_ok.2 ht⟩, ⟨s', hs', parse_eq_ok.2 hu⟩,
      rfl, since_eq_sub ht.hasShortYear hu.hasShortYear,
      since_neg_iff ht.hasShortYear hu.hasShortYear⟩

/-- The last moment of a leap day and the one after it, as they are read, and as the end and the
creation of a connection. -/
theorem orders_agree_leap_day :
    let last := "2000/02/29 23:59:59.999999"
    let next := "2000/03/01 00:00:00.000000"
    let t : Timestamp := ⟨951868799999999, by decide⟩
    let u : Timestamp := ⟨951868800000000, by decide⟩
    let closing : Closing := ⟨u, 0, 0⟩
    let e : Event := ⟨⟨1, t, "a", "b", none, none⟩, .tcpEnd ⟨1000, 80⟩ closing⟩
    parse last = .ok t ∧ parse next = .ok u ∧
    cmp (Utf8.encode last.toList) (Utf8.encode next.toList) = .lt ∧
    (u.microCount - t.microCount).toInt = 1 ∧
    Event.parse e.toRecord = .ok e ∧ (t.microCount - u.microCount).toInt = closing.duration t ∧
    closing.duration t = -1 := by
  intro last next t u closing e
  have ht : parse last = .ok t := parse_eq_ok_iff.2 (by decide)
  have hu : parse next = .ok u := parse_eq_ok_iff.2 (by decide)
  have he : Event.parse e.toRecord = .ok e := Event.parse_toRecord (by decide)
  exact ⟨ht, hu, (orders_agree.1 last next t u ht hu).1.trans (by decide),
    (orders_agree.1 next last u t hu ht).2.2.2.2.1.trans (by decide), he,
    (orders_agree.2 e.toRecord _ _ closing (.inl he)).2.2.1, by decide⟩

end Timestamp
end FlowLog
