import FlowLog.Text.Decimal
import Mathlib.Algebra.Ring.Nat
import Mathlib.Data.List.Basic
import Mathlib.Data.List.Induction

/-! Written numbers are read back. Digits are taken up to the first character that is none, or in a
fixed number; zeros in front do not change the value, and `width` digits stay below `10 ^ width`. -/

namespace FlowLog
namespace Decimal

theorem digitChar_toNat {d : Nat} (h : d < 10) : (digitChar d).toNat = 48 + d := by
  have hvalid : (48 + d).isValidChar := .inl (by omega)
  rw [digitChar, Char.ofNat, dif_pos hvalid]
  rfl

theorem digit?_digitChar {d : Nat} (h : d < 10) : digit? (digitChar d) = some d := by
  rw [digit?, digitChar_toNat h, if_pos (by omega)]
  exact congrArg some (by omega)

theorem digit?_lt {c : Char} {d : Nat} (h : digit? c = some d) : d < 10 := by
  simp only [digit?, Option.ite_none_right_eq_some, Option.some.injEq] at h
  omega

/-- No digit is a mark of punctuation. -/
theorem digitChar_ne {d : Nat} {c : Char} (hd : d < 10) (hc : digit? c = none) :
    digitChar d ≠ c := by
  rintro rfl
  rw [digit?_digitChar hd] at hc
  cases hc

theorem run_digits {ds : List Nat} (hds : ∀ d ∈ ds, d < 10) {rest : List Char}
    (hrest : ∀ c ∈ rest.head?, digit? c = none) : run (ds.map digitChar ++ rest) = (ds, rest) := by
  induction ds with
  | nil => cases rest with
    | nil => rfl
    | cons c r =>
      have hc : digit? c = none := hrest c rfl
      rw [List.map_nil, List.nil_append, run, hc]
  | cons d ds ih =>
    have hd : digit? (digitChar d) = some d := digit?_digitChar (hds d List.mem_cons_self)
    rw [List.map_cons, List.cons_append, run, hd, ih fun e he => hds e (List.mem_cons_of_mem d he)]

theorem fixed?_digits {ds : List Nat} (hds : ∀ d ∈ ds, d < 10) (rest : List Char) :
    fixed? ds.length (ds.map digitChar ++ rest) = some (ds, rest) := by
  induction ds with
  | nil => rfl
  | cons d ds ih =>
    have hd : digit? (digitChar d) = some d := digit?_digitChar (hds d List.mem_cons_self)
    simp only [List.length_cons, List.map_cons, List.cons_append, fixed?, hd,
      ih fun e he => hds e (List.mem_cons_of_mem d he), Option.bind_eq_bind, Option.bind_some]

theorem value_lt {ds : List Nat} (hds : ∀ d ∈ ds, d < 10) : value ds < 10 ^ ds.length := by
  induction ds using List.reverseRecOn with
  | nil => decide
  | append_singleton ds d ih =>
    have hvalue := ih fun e he => hds e (List.mem_append_left [d] he)
    have hd : d < 10 := hds d List.mem_concat_self
    rw [value_concat, List.length_append, List.length_singleton, Nat.pow_succ]
    omega

/-- Digits in equally many places are determined by their number. -/
theorem value_inj {ds es : List Nat} (hds : ∀ d ∈ ds, d < 10) (hes : ∀ d ∈ es, d < 10)
    (hlength : ds.length = es.length) (h : value ds = value es) : ds = es := by
  induction ds using List.reverseRecOn generalizing es with
  | nil => exact (List.length_eq_zero_iff.1 hlength.symm).symm
  | append_singleton ds d ih =>
    obtain rfl | ⟨es, e, rfl⟩ := es.eq_nil_or_concat'
    · simp at hlength
    · have hd : d < 10 := hds d List.mem_concat_self
      have he : e < 10 := hes e List.mem_concat_self
      rw [value_concat, value_concat] at h
      have hrest := ih (fun x hx => hds x (List.mem_append_left _ hx))
        (fun x hx => hes x (List.mem_append_left _ hx)) (by simpa using hlength) (by omega)
      rw [hrest, show d = e by omega]

theorem value_zeros (k : Nat) (ds : List Nat) : value (List.replicate k 0 ++ ds) = value ds := by
  induction k with
  | zero => rfl
  | succ k ih => exact ih

theorem digits_ne_nil (n : Nat) : digits n ≠ [] := by
  unfold digits
  split <;> simp

theorem digits_length_le {n width : Nat} (hwidth : 0 < width) (h : n < 10 ^ width) :
    (digits n).length ≤ width := by
  fun_induction digits n generalizing width with
  | case1 n hn => exact hwidth
  | case2 n hn ih =>
    obtain ⟨_ | width, rfl⟩ : ∃ w, width = w + 1 := ⟨width - 1, by omega⟩
    · exact absurd h hn
    · have := ih (Nat.succ_pos width) (by rw [Nat.pow_succ] at h; omega)
      rw [List.length_append, List.length_singleton]
      omega

/-- Only zero begins with a zero. -/
theorem digits_head {n : Nat} (hn : n ≠ 0) : ∀ d ∈ (digits n).head?, d ≠ 0 := by
  fun_induction digits n with
  | case1 n h => simpa using hn
  | case2 n h ih =>
    rw [List.head?_append_of_ne_nil (digits (n / 10)) (digits_ne_nil (n / 10))]
    exact ih (by omega)

theorem padded_eq (width n : Nat) : padded width n =
    (List.replicate (width - (digits n).length) 0 ++ digits n).map digitChar := by
  rw [List.map_append, List.map_replicate, padded, chars, List.length_map]
  rfl

/-- A padded number that fits its width is read from exactly that many characters. -/
theorem fixed?_padded {width n : Nat} (hwidth : 0 < width) (h : n < 10 ^ width)
    (rest : List Char) :
    ∃ ds, fixed? width (padded width n ++ rest) = some (ds, rest) ∧ value ds = n := by
  have hlength := digits_length_le hwidth h
  have hds : ∀ d ∈ List.replicate (width - (digits n).length) 0 ++ digits n, d < 10 := by
    intro d hd
    rcases List.mem_append.1 hd with hd | hd
    · exact List.eq_of_mem_replicate hd ▸ Nat.succ_pos 9
    · exact digits_lt n d hd
  have hpadded := fixed?_digits hds rest
  rw [List.length_append, List.length_replicate, Nat.sub_add_cancel hlength, ← padded_eq] at hpadded
  exact ⟨_, hpadded, (value_zeros _ _).trans (digits_value n)⟩

theorem le_length_padded (width n : Nat) : width ≤ (padded width n).length := by
  rw [padded, List.length_append, List.length_replicate]
  omega

/-- A greater number takes more places than it is padded to. -/
theorem lt_length_padded {width n : Nat} (h : 10 ^ width ≤ n) : width < (padded width n).length := by
  have hvalue := value_lt (digits_lt n)
  rw [digits_value] at hvalue
  have hdigits : width < (digits n).length :=
    (Nat.pow_lt_pow_iff_right (show 1 < 10 by decide)).1 (Nat.lt_of_le_of_lt h hvalue)
  rw [padded, chars, List.length_append, List.length_map]
  omega

end Decimal
end FlowLog
