import FlowLog.Proofs.Digits
import FlowLog.Time.Text

/-! The written form of timestamps, `DDDD/DD/DD DD:DD:DD.DDDDDD` with `D` an ASCII digit. Reading the
fields succeeds on the texts of this form and on no others, and what is read writes the same text. -/

namespace FlowLog
namespace Decimal

/-- ASCII digits in a number of places. -/
structure Block (width : Nat) where
  chars : List Char
  length_eq : chars.length = width
  isDigit : ∀ c ∈ chars, c.isDigit

theorem digit?_eq_some_iff {c : Char} {d : Nat} :
    digit? c = some d ↔ c.isDigit ∧ d = c.toNat - 48 := by
  have hdigit : c.isDigit ↔ 48 ≤ c.toNat ∧ c.toNat ≤ 57 := by
    simp only [Char.isDigit, ge_iff_le, Bool.and_eq_true, decide_eq_true_eq,
      UInt32.le_iff_toNat_le]
    rfl
  rw [digit?, Option.ite_none_right_eq_some, hdigit, Option.some.injEq, eq_comm (a := d)]

theorem digitChar_digit {c : Char} (h : c.isDigit) : digitChar (c.toNat - 48) = c := by
  have hdigit := digit?_eq_some_iff.2 ⟨h, rfl⟩
  apply Char.toNat_inj.1
  rw [digitChar_toNat (digit?_lt hdigit)]
  rw [digit?, Option.ite_none_right_eq_some] at hdigit
  omega

namespace Block

variable {width : Nat} (b : Block width)

def digits : List Nat := b.chars.map fun c => c.toNat - 48

/-- The number that the digits write. -/
def number : Nat := value b.digits

theorem digits_length : b.digits.length = width := by rw [digits, List.length_map, b.length_eq]

theorem digits_lt : ∀ d ∈ b.digits, d < 10 := by
  intro d hd
  obtain ⟨c, hc, rfl⟩ := List.mem_map.1 hd
  exact digit?_lt (digit?_eq_some_iff.2 ⟨b.isDigit c hc, rfl⟩)

theorem map_digits : b.digits.map digitChar = b.chars := by
  have hchars : ∀ c ∈ b.chars, (digitChar ∘ fun c => c.toNat - 48) c = id c :=
    fun c hc => digitChar_digit (b.isDigit c hc)
  rw [digits, List.map_map, List.map_congr_left hchars, List.map_id]

theorem number_lt : b.number < 10 ^ width := by
  have h := value_lt b.digits_lt
  rwa [b.digits_length] at h

end Block

theorem fixed?_eq_some_iff {width : Nat} {s rest : List Char} {ds : List Nat} :
    fixed? width s = some (ds, rest) ↔
      ∃ b : Block width, s = b.chars ++ rest ∧ ds = b.digits := by
  constructor
  · intro h
    induction width generalizing s ds with
    | zero =>
      cases h
      exact ⟨⟨[], rfl, by simp⟩, rfl, rfl⟩
    | succ width ih => cases s with
      | nil => simp [fixed?] at h
      | cons c s =>
        simp only [fixed?, Option.bind_eq_bind, Option.bind_eq_some_iff, Option.some.injEq,
          Prod.mk.injEq, Prod.exists] at h
        obtain ⟨d, hd, ds, rest, hr, rfl, rfl⟩ := h
        obtain ⟨hc, rfl⟩ := digit?_eq_some_iff.1 hd
        obtain ⟨b, rfl, rfl⟩ := ih hr
        refine ⟨⟨c :: b.chars, by simp [b.length_eq], ?_⟩, rfl, rfl⟩
        exact List.forall_mem_cons.2 ⟨hc, b.isDigit⟩
  · rintro ⟨b, rfl, rfl⟩
    have h := fixed?_digits b.digits_lt rest
    rwa [b.digits_length, b.map_digits] at h

theorem exists_block_padded {width n : Nat} (hwidth : 0 < width) (h : n < 10 ^ width) :
    ∃ b : Block width, b.chars = padded width n ∧ b.number = n := by
  obtain ⟨ds, hds, hvalue⟩ := fixed?_padded hwidth h []
  obtain ⟨b, hchars, rfl⟩ := fixed?_eq_some_iff.1 hds
  rw [List.append_nil, List.append_nil] at hchars
  exact ⟨b, hchars.symm, hvalue⟩

theorem exists_block_number {width n : Nat} (hwidth : 0 < width) (h : n < 10 ^ width) :
    ∃ b : Block width, b.number = n :=
  (exists_block_padded hwidth h).imp fun _ hb => hb.2

/-- A number that was written in some places is written in them again. -/
theorem padded_number {width : Nat} (hwidth : 0 < width) (b : Block width) :
    padded width b.number = b.chars := by
  obtain ⟨b', hchars, hnumber⟩ := exists_block_padded hwidth b.number_lt
  have hdigits : b'.digits = b.digits :=
    value_inj b'.digits_lt b.digits_lt (b'.digits_length.trans b.digits_length.symm) hnumber
  rw [← hchars, ← b'.map_digits, hdigits, b.map_digits]

end Decimal

namespace Clock

/-- The fields of a text in the written form. -/
structure Form where
  year : Decimal.Block 4
  month : Decimal.Block 2
  day : Decimal.Block 2
  hour : Decimal.Block 2
  minute : Decimal.Block 2
  second : Decimal.Block 2
  micro : Decimal.Block 6

namespace Form

variable (f : Form)

def chars : List Char :=
  f.year.chars ++ '/' :: f.month.chars ++ '/' :: f.day.chars ++ ' ' :: f.hour.chars ++
    ':' :: f.minute.chars ++ ':' :: f.second.chars ++ '.' :: f.micro.chars

def text : String := String.ofList f.chars

/-- The numbers of the fields, whether or not they are a date and a time of day. -/
def clock : Clock where
  date := ⟨f.year.number, f.month.number, f.day.number⟩
  hour := f.hour.number
  minute := f.minute.number
  second := f.second.number
  micro := f.micro.number

theorem length_chars : f.chars.length = 26 := by
  rw [chars]
  simp only [List.length_append, List.length_cons, f.year.length_eq, f.month.length_eq,
    f.day.length_eq, f.hour.length_eq, f.minute.length_eq, f.second.length_eq, f.micro.length_eq]

theorem chars_clock : f.clock.chars = f.chars := by
  have hyear : yearChars f.year.number = f.year.chars :=
    (if_neg (by omega)).trans (Decimal.padded_number (by decide) f.year)
  have htwo (b : Decimal.Block 2) : Decimal.padded 2 b.number = b.chars :=
    Decimal.padded_number (by decide) b
  have hsix : Decimal.padded 6 f.micro.number = f.micro.chars :=
    Decimal.padded_number (by decide) f.micro
  dsimp only [Clock.chars, clock]
  rw [hyear, htwo, htwo, htwo, htwo, htwo, hsix, chars]

theorem text_eq_iff {f : Form} {s : String} : s = f.text ↔ s.toList = f.chars := by
  rw [text, String.ext_iff, String.toList_ofList]

end Form

theorem field?_eq_some_iff {width n : Nat} {s rest : List Char} :
    field? width s = some (n, rest) ↔
      ∃ b : Decimal.Block width, s = b.chars ++ rest ∧ n = b.number := by
  simp only [field?, Option.map_eq_some_iff, Prod.exists, Decimal.fixed?_eq_some_iff, Prod.mk.injEq]
  constructor
  · rintro ⟨_, _, ⟨b, rfl, rfl⟩, rfl, rfl⟩
    exact ⟨b, rfl, rfl⟩
  · rintro ⟨b, rfl, rfl⟩
    exact ⟨_, _, ⟨b, rfl, rfl⟩, rfl, rfl⟩

/-! A reader that goes on after a field or a mark. -/

section
variable {α : Type} {x : α} {s : List Char}

theorem field?_bind_eq_some {width : Nat} {k : Nat × List Char → Option α} :
    (field? width s).bind k = some x ↔
      ∃ (b : Decimal.Block width) (rest : List Char),
        s = b.chars ++ rest ∧ k (b.number, rest) = some x := by
  simp only [Option.bind_eq_some_iff, Prod.exists, field?_eq_some_iff]
  constructor
  · rintro ⟨_, rest, ⟨b, rfl, rfl⟩, h⟩
    exact ⟨b, rest, rfl, h⟩
  · rintro ⟨b, rest, rfl, h⟩
    exact ⟨_, rest, ⟨b, rfl, rfl⟩, h⟩

theorem mark?_bind_eq_some {c : Char} {k : List Char → Option α} :
    (mark? c s).bind k = some x ↔ ∃ rest, s = c :: rest ∧ k rest = some x := by
  cases s with
  | nil => simp [mark?]
  | cons d s =>
    by_cases hc : c = d
    · simp [mark?, hc]
    · simp [mark?, hc, Ne.symm hc]

end

/-- The fields are read from the texts of the written form. -/
theorem read?_eq_some_iff {s : List Char} {c : Clock} :
    read? s = some c ↔ ∃ f : Form, s = f.chars ∧ c = f.clock := by
  unfold read?
  dsimp only [Option.bind_eq_bind]
  -- Each reader is taken off before what goes on after it is looked at.
  simp only [↓field?_bind_eq_some, ↓mark?_bind_eq_some, Option.ite_none_right_eq_some,
    Option.some.injEq]
  constructor
  · rintro ⟨year, _, rfl, _, rfl, month, _, rfl, _, rfl, day, _, rfl, _, rfl, hour, _, rfl, _, rfl,
      minute, _, rfl, _, rfl, second, _, rfl, _, rfl, micro, _, rfl, rfl, rfl⟩
    refine ⟨⟨year, month, day, hour, minute, second, micro⟩, ?_, rfl⟩
    simp [Form.chars]
  · rintro ⟨f, rfl, rfl⟩
    refine ⟨f.year, _, ?_, _, rfl, f.month, _, rfl, _, rfl, f.day, _, rfl, _, rfl, f.hour, _, rfl, _,
      rfl, f.minute, _, rfl, _, rfl, f.second, _, rfl, _, rfl, f.micro, [],
      (List.append_nil _).symm, rfl, rfl⟩
    simp [Form.chars]

end Clock
end FlowLog
