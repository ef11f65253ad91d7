import FlowLog.Endpoint
import FlowLog.Proofs.ByteOrder
import Mathlib.Tactic.Tauto

/-! A key stands for its two endpoints in either order. Which of them leads is a total order, by
ports and then by the bytes of the addresses, so the key does not depend on the order in which they
are given, and nothing else has the same key. -/

namespace FlowLog

namespace Endpoint

theorem leads_iff {a b : Endpoint} :
    a.leads b ↔ a.port.toNat < b.port.toNat ∨ a.port = b.port ∧ a.address ≤ b.address := by
  simp [leads, UInt16.lt_iff_toNat_lt]

theorem leads_total (a b : Endpoint) : a.leads b ∨ b.leads a := by
  simp only [leads_iff]
  rcases Nat.lt_trichotomy a.port.toNat b.port.toNat with h | h | h
  · exact .inl (.inl h)
  · have hport : a.port = b.port := UInt16.toNat_inj.1 h
    exact (String.le_total a.address b.address).imp (fun hle => .inr ⟨hport, hle⟩)
      fun hle => .inr ⟨hport.symm, hle⟩
  · exact .inr (.inl h)

theorem leads_antisymm {a b : Endpoint} (hab : a.leads b) (hba : b.leads a) : a = b := by
  rw [leads_iff] at hab hba
  have hport : a.port = b.port := by
    rcases hab with hlt | ⟨hport, -⟩
    · rcases hba with hgt | ⟨hport, -⟩
      · exact absurd hlt (Nat.lt_asymm hgt)
      · exact hport.symm
    · exact hport
  simp only [hport, Nat.lt_irrefl, false_or, true_and] at hab hba
  obtain ⟨s, p⟩ := a
  obtain ⟨t, q⟩ := b
  cases hport
  cases String.le_antisymm hab hba
  rfl

def addressBytes (a : Endpoint) : List UInt8 := Utf8.encode a.address.toList

theorem leads_iff_bytes {a b : Endpoint} :
    a.leads b ↔ a.port < b.port ∨ a.port = b.port ∧ a.addressBytes ≤ b.addressBytes := by
  rw [leads_iff, UInt16.lt_iff_toNat_lt, addressBytes, addressBytes, Utf8.encode_le_iff]

end Endpoint

namespace ConnectionKey

theorem of_comm (a b : Endpoint) : of a b = of b a := by
  unfold of
  by_cases hab : a.leads b <;> by_cases hba : b.leads a
  · rw [Endpoint.leads_antisymm hab hba]
  · rw [if_pos hab, if_neg hba]
  · rw [if_neg hab, if_pos hba]
  · exact absurd (Endpoint.leads_total a b) (by simp [hab, hba])

/-- A key is its two endpoints in either order. -/
theorem of_eq_of_iff {a b c d : Endpoint} :
    of a b = of c d ↔ (a = c ∧ b = d) ∨ (a = d ∧ b = c) := by
  constructor
  · unfold of
    by_cases hab : a.leads b <;> by_cases hcd : c.leads d <;>
      simp only [hab, hcd, if_true, if_false, Bool.false_eq_true, mk.injEq] <;> tauto
  · rintro (⟨rfl, rfl⟩ | ⟨rfl, rfl⟩)
    · rfl
    · exact of_comm a b

theorem first_leads_second (a b : Endpoint) : (of a b).first.leads (of a b).second := by
  unfold of
  split
  · assumption
  · rename_i hab
    exact (Endpoint.leads_total a b).resolve_left hab

/-- Two pairs of endpoints have one key if they are the same or exchanged, and not else. The first
endpoint of a key has the lower port, or on equal ports an address whose bytes are not greater. -/
theorem of_identifies (a b c d : Endpoint) :
    (of a b = of c d ↔ (a, b) = (c, d) ∨ (a, b) = (d, c)) ∧
    ((of a b).first.port < (of a b).second.port ∨
      (of a b).first.port = (of a b).second.port ∧
        (of a b).first.addressBytes ≤ (of a b).second.addressBytes) := by
  refine ⟨?_, Endpoint.leads_iff_bytes.1 (first_leads_second a b)⟩
  simp only [Prod.mk.injEq]
  exact of_eq_of_iff

/-- On equal ports the bytes of the addresses decide, not the numbers in them. -/
example : of ⟨"192.168.0.3", 5000⟩ ⟨"192.168.0.20", 5000⟩ =
    ⟨⟨"192.168.0.20", 5000⟩, ⟨"192.168.0.3", 5000⟩⟩ := by
  decide

end ConnectionKey

end FlowLog
