import FlowLog.Proofs.Encoding
import Mathlib.Tactic.Tauto

/-! Texts are in the order of their bytes. Of two characters the lesser has the lesser bytes: a
longer form begins with a greater byte, and forms of one length are the digits of the characters to
the base 64. So the first character that differs decides among the bytes as it does in the text. -/

namespace FlowLog

/-- Behind equally long fronts what follows counts only if the fronts are equal. -/
theorem append_lt_append_iff {α : Type} [LT α] [Std.Irrefl ((· < ·) : α → α → Prop)]
    {as bs cs ds : List α} (h : as.length = bs.length) :
    as ++ cs < bs ++ ds ↔ as < bs ∨ as = bs ∧ cs < ds := by
  induction as generalizing bs with
  | nil =>
    obtain rfl := List.length_eq_zero_iff.1 h.symm
    simp
  | cons a as ih =>
    obtain ⟨b, bs, rfl⟩ := List.exists_cons_of_length_eq_add_one h.symm
    rw [List.cons_append, List.cons_append, List.cons_lt_cons_iff, List.cons_lt_cons_iff,
      ih (Nat.succ.inj h), List.cons.injEq]
    tauto

/-- A map that keeps order and equality between the elements keeps the order of the lists. -/
theorem map_lt_map_iff {α β : Type} [LT α] [LT β] {f : α → β} {as bs : List α}
    (h : ∀ a ∈ as, ∀ b ∈ bs, (f a < f b ↔ a < b) ∧ (f a = f b ↔ a = b)) :
    as.map f < bs.map f ↔ as < bs := by
  induction as generalizing bs with
  | nil => cases bs <;> simp
  | cons a as ih =>
    cases bs with
    | nil => simp
    | cons b bs =>
      obtain ⟨hlt, heq⟩ := h a List.mem_cons_self b List.mem_cons_self
      have hrest := ih fun a ha b hb =>
        h a (List.mem_cons_of_mem _ ha) b (List.mem_cons_of_mem _ hb)
      rw [List.map_cons, List.map_cons, List.cons_lt_cons_iff, List.cons_lt_cons_iff, hlt, heq,
        hrest]

namespace Utf8

theorem cons_lt_cons {m n : Nat} {bs cs : List UInt8} (hn : n < 256) (hle : m ≤ n)
    (htail : m = n → bs < cs) : m.toUInt8 :: bs < n.toUInt8 :: cs := by
  rw [List.cons_lt_cons_iff, UInt8.lt_iff_toNat_lt, toUInt8_toNat hn, toUInt8_toNat (by omega)]
  rcases Nat.lt_or_eq_of_le hle with hlt | rfl
  · exact .inl hlt
  · exact .inr ⟨rfl, htail rfl⟩

/-- Each form is compared with the four forms that the greater character may have. -/
theorem encodeChar_append_lt {c d : Char} (h : c.toNat < d.toNat) (bs cs : List UInt8) :
    encodeChar c ++ bs < encodeChar d ++ cs := by
  have hd := toNat_lt d
  have hfirst {m n : Nat} {bs cs : List UInt8} (hn : n < 256) (hlt : m < n) :
      m.toUInt8 :: bs < n.toUInt8 :: cs := cons_lt_cons hn (Nat.le_of_lt hlt) (by omega)
  unfold encodeChar
  dsimp only
  split
  · split_ifs <;> exact hfirst (by omega) (by omega)
  split
  · split_ifs
    · omega
    · exact cons_lt_cons (by omega) (by omega) fun _ => hfirst (by omega) (by omega)
    · exact hfirst (by omega) (by omega)
    · exact hfirst (by omega) (by omega)
  split
  · split_ifs
    · omega
    · omega
    · exact cons_lt_cons (by omega) (by omega) fun _ => cons_lt_cons (by omega) (by omega) fun _ =>
        hfirst (by omega) (by omega)
    · exact hfirst (by omega) (by omega)
  · split_ifs
    · omega
    · omega
    · omega
    · exact cons_lt_cons (by omega) (by omega) fun _ => cons_lt_cons (by omega) (by omega) fun _ =>
        cons_lt_cons (by omega) (by omega) fun _ => hfirst (by omega) (by omega)

theorem encode_lt_iff {cs ds : List Char} : encode cs < encode ds ↔ cs < ds := by
  induction cs generalizing ds with
  | nil =>
    cases ds with
    | nil => simp
    | cons d ds =>
      obtain ⟨b, bs, hd⟩ := List.exists_cons_of_ne_nil (encodeChar_ne_nil d)
      simp [hd]
  | cons c cs ih =>
    cases ds with
    | nil => simp
    | cons d ds =>
      rw [encode_cons, encode_cons, List.cons_lt_cons_iff]
      rcases Nat.lt_trichotomy c.toNat d.toNat with hlt | heq | hgt
      · exact iff_of_true (encodeChar_append_lt hlt _ _) (.inl hlt)
      · obtain rfl := Char.toNat_inj.1 heq
        rw [append_lt_append_iff rfl, ih]
        simp [List.lt_irrefl]
      · refine iff_of_false (List.lt_asymm (encodeChar_append_lt hgt _ _)) ?_
        rintro (hlt | ⟨rfl, -⟩)
        · exact Nat.lt_asymm hlt hgt
        · exact Nat.lt_irrefl _ hgt

theorem encode_le_iff {s t : String} : encode s.toList ≤ encode t.toList ↔ s ≤ t := by
  rw [← List.not_lt, encode_lt_iff, ← String.lt_iff, String.not_lt]

end Utf8
end FlowLog
