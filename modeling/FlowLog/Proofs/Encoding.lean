import FlowLog.Text.Lines
import FlowLog.Text.Utf8
import Mathlib.Data.List.Basic

/-! Text survives its encoding: the bytes of a character are read as that character, whatever follows
them. Bytes below 128 stand for themselves only, so a line feed among the bytes is one in the text. -/

namespace FlowLog
namespace Utf8

theorem scalar?_toNat {least : Nat} {c : Char} (h : least ≤ c.toNat) :
    scalar? least c.toNat = some c := by
  rw [scalar?, dif_pos ⟨h, c.valid⟩]
  exact congrArg some (Char.ext (UInt32.toNat_inj.1 rfl))

theorem tail?_of_lt {x : Nat} (h : x < 64) : tail? (0x80 + x).toUInt8 = some x := by
  have hx : (0x80 + x).toUInt8.toNat = 0x80 + x := by
    rw [Nat.toUInt8_eq, UInt8.toNat_ofNat']
    omega
  rw [tail?, hx, if_pos (by omega)]
  exact congrArg some (by omega)

/-! The four forms that a first byte announces. -/

theorem next?_one {a : UInt8} (rest : List UInt8) (h : a.toNat < 0x80) :
    next? (a :: rest) = (scalar? 0 a.toNat).map (·, rest) := by
  unfold next?
  exact if_pos h

theorem next?_two {a b : UInt8} {x : Nat} (rest : List UInt8) (hleast : 0xC0 ≤ a.toNat)
    (h : a.toNat < 0xE0) (hb : tail? b = some x) :
    next? (a :: b :: rest) = (scalar? 0x80 ((a.toNat - 0xC0) * 64 + x)).map (·, rest) := by
  have h₁ : ¬a.toNat < 0x80 := by omega
  have h₂ : ¬a.toNat < 0xC0 := by omega
  simp only [next?, h₁, h₂, h, if_false, if_true, hb, Option.bind_eq_bind, Option.bind_some]

theorem next?_three {a b c : UInt8} {x y : Nat} (rest : List UInt8) (hleast : 0xE0 ≤ a.toNat)
    (h : a.toNat < 0xF0) (hb : tail? b = some x) (hc : tail? c = some y) :
    next? (a :: b :: c :: rest) =
      (scalar? 0x800 ((a.toNat - 0xE0) * 4096 + x * 64 + y)).map (·, rest) := by
  have h₁ : ¬a.toNat < 0x80 := by omega
  have h₂ : ¬a.toNat < 0xC0 := by omega
  have h₃ : ¬a.toNat < 0xE0 := by omega
  simp only [next?, h₁, h₂, h₃, h, if_false, if_true, hb, hc, Option.bind_eq_bind,
    Option.bind_some]

theorem next?_four {a b c d : UInt8} {x y z : Nat} (rest : List UInt8) (h : 0xF0 ≤ a.toNat)
    (hb : tail? b = some x) (hc : tail? c = some y) (hd : tail? d = some z) :
    next? (a :: b :: c :: d :: rest) =
      (scalar? 0x10000 ((a.toNat - 0xF0) * 262144 + x * 4096 + y * 64 + z)).map (·, rest) := by
  have h₁ : ¬a.toNat < 0x80 := by omega
  have h₂ : ¬a.toNat < 0xC0 := by omega
  have h₃ : ¬a.toNat < 0xE0 := by omega
  have h₄ : ¬a.toNat < 0xF0 := by omega
  -- By definitional equality the kernel would count through the factor.
  simp -implicitDefEqProofs only [next?, h₁, h₂, h₃, h₄, if_false, hb, hc, hd, Option.bind_eq_bind,
    Option.bind_some]

theorem toUInt8_toNat {n : Nat} (h : n < 256) : n.toUInt8.toNat = n := by
  rw [Nat.toUInt8_eq, UInt8.toNat_ofNat', Nat.mod_eq_of_lt h]

theorem toNat_lt (c : Char) : c.toNat < 0x110000 := by
  have hvalid := c.valid
  simp only [UInt32.isValidChar, Nat.isValidChar] at hvalid
  rw [Char.toNat]
  omega

/-- Each form is taken apart into the bits that it was put together from. -/
theorem next?_encodeChar (c : Char) (rest : List UInt8) :
    next? (encodeChar c ++ rest) = some (c, rest) := by
  have hc := toNat_lt c
  unfold encodeChar
  dsimp only
  split
  · rename_i h
    have ha : c.toNat.toUInt8.toNat = c.toNat := toUInt8_toNat (by omega)
    rw [List.singleton_append, next?_one rest (by omega), ha, scalar?_toNat (Nat.zero_le _)]
    rfl
  split
  · rename_i hleast h
    have ha : (0xC0 + c.toNat / 64).toUInt8.toNat = 0xC0 + c.toNat / 64 := toUInt8_toNat (by omega)
    have hb := tail?_of_lt (x := c.toNat % 64) (by omega)
    have hsum : (0xC0 + c.toNat / 64 - 0xC0) * 64 + c.toNat % 64 = c.toNat := by omega
    have hnext := next?_two (a := (0xC0 + c.toNat / 64).toUInt8) rest (by omega) (by omega) hb
    rw [ha, hsum, scalar?_toNat (by omega)] at hnext
    exact hnext
  split
  · rename_i hleast h
    have ha : (0xE0 + c.toNat / 4096).toUInt8.toNat = 0xE0 + c.toNat / 4096 :=
      toUInt8_toNat (by omega)
    have hb := tail?_of_lt (x := c.toNat / 64 % 64) (by omega)
    have hc := tail?_of_lt (x := c.toNat % 64) (by omega)
    have hsum : (0xE0 + c.toNat / 4096 - 0xE0) * 4096 + c.toNat / 64 % 64 * 64 + c.toNat % 64 =
        c.toNat := by omega
    have hnext :=
      next?_three (a := (0xE0 + c.toNat / 4096).toUInt8) rest (by omega) (by omega) hb hc
    rw [ha, hsum, scalar?_toNat (by omega)] at hnext
    exact hnext
  · rename_i hleast
    have ha : (0xF0 + c.toNat / 262144).toUInt8.toNat = 0xF0 + c.toNat / 262144 :=
      toUInt8_toNat (by omega)
    have hb := tail?_of_lt (x := c.toNat / 4096 % 64) (by omega)
    have hc := tail?_of_lt (x := c.toNat / 64 % 64) (by omega)
    have hd := tail?_of_lt (x := c.toNat % 64) (by omega)
    have hsum : (0xF0 + c.toNat / 262144 - 0xF0) * 262144 + c.toNat / 4096 % 64 * 4096 +
        c.toNat / 64 % 64 * 64 + c.toNat % 64 = c.toNat := by omega
    have hnext := next?_four (a := (0xF0 + c.toNat / 262144).toUInt8) rest (by omega) hb hc hd
    rw [ha, hsum, scalar?_toNat (by omega)] at hnext
    exact hnext

theorem decodeOnto_of_next? {done : List Char} {bs rest : List UInt8} {c : Char}
    (h : next? bs = some (c, rest)) : decodeOnto done bs = decodeOnto (c :: done) rest := by
  cases bs with
  | nil => simp [next?] at h
  | cons b r =>
    rw [decodeOnto]
    split
    · rename_i hnone
      rw [h] at hnone
      contradiction
    · rename_i hsome
      rw [h] at hsome
      cases hsome
      rfl

theorem decodeOnto_encode (done cs : List Char) :
    decodeOnto done (encode cs) = some (done.reverse ++ cs) := by
  induction cs generalizing done with
  | nil => simp [decodeOnto]
  | cons c cs ih =>
    rw [encode_cons, decodeOnto_of_next? (next?_encodeChar c (encode cs)), ih]
    simp

theorem decode_encode (cs : List Char) : decode (encode cs) = some cs := decodeOnto_encode [] cs

theorem encodeChar_ne_nil (c : Char) : encodeChar c ≠ [] := by
  unfold encodeChar
  dsimp only
  repeat' split
  all_goals nofun

/-- The bytes of a character beyond the first 128 are all beyond them. -/
theorem encodeChar_of_mem {c : Char} {b : UInt8} (hb : b ∈ encodeChar c) (h : b.toNat < 0x80) :
    c.toNat = b.toNat := by
  have hc := toNat_lt c
  have hhigh {n : Nat} (hleast : 0x80 ≤ n) (hn : n < 256) (he : b = n.toUInt8) : False := by
    rw [he, toUInt8_toNat hn] at h
    omega
  unfold encodeChar at hb
  dsimp only at hb
  split at hb
  · rw [List.mem_singleton.1 hb, toUInt8_toNat (by omega)]
  split at hb
  · simp only [List.mem_cons, List.not_mem_nil, or_false] at hb
    exact (hb.elim (hhigh (by omega) (by omega)) (hhigh (by omega) (by omega))).elim
  split at hb
  · simp only [List.mem_cons, List.not_mem_nil, or_false] at hb
    rcases hb with hb | hb | hb <;> exact (hhigh (by omega) (by omega) hb).elim
  · simp only [List.mem_cons, List.not_mem_nil, or_false] at hb
    rcases hb with hb | hb | hb | hb <;> exact (hhigh (by omega) (by omega) hb).elim

/-- A text without a line feed has none among its bytes. -/
theorem lineFeed_notMem_encode {cs : List Char} (h : '\n' ∉ cs) : Lines.lineFeed ∉ encode cs := by
  intro hmem
  obtain ⟨c, hc, hb⟩ := List.mem_flatMap.1 hmem
  have hn : c.toNat = 10 := encodeChar_of_mem hb (by decide)
  have hfeed : c = '\n' := Char.ext (UInt32.toNat_inj.1 hn)
  exact h (hfeed ▸ hc)

end Utf8
end FlowLog
