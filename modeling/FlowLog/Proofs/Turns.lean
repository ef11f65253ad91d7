import FlowLog.Proofs.Merging
import Mathlib.Algebra.Ring.Nat

/-! Merging without a queue. While any stream has events left, the least of their heads, by time and
at one time by position, is taken from its stream. This says which stream each event of a merge
comes from, for streams in any order of time, and the queue takes the events in the same turns. -/

namespace FlowLog

/-- The events of the streams as they are taken, each with the position of its stream. -/
inductive Turns : List (List Event) → List (Nat × Event) → Prop
  | spent {ss : List (List Event)} : (∀ s ∈ ss, s = []) → Turns ss []
  | take {ss : List (List Event)} {i : Nat} {e : Event} {es : List Event}
      {ts : List (Nat × Event)} :
      ss[i]? = some (e :: es) →
      (∀ j f fs, ss[j]? = some (f :: fs) → e.time < f.time ∨ e.time = f.time ∧ i ≤ j) →
      Turns (ss.set i es) ts → Turns ss ((i, e) :: ts)

namespace Turns

variable {ss : List (List Event)} {ts us : List (Nat × Event)}

/-- There is one least head at a time, so the turns are determined. -/
theorem unique (h : Turns ss ts) (h' : Turns ss us) : us = ts := by
  induction h generalizing us with
  | spent hnone =>
    cases h' with
    | spent => rfl
    | take hhead => cases hnone _ (List.mem_of_getElem? hhead)
  | @take ss i e es ts hhead hleast _ ih =>
    cases h' with
    | spent hnone => cases hnone _ (List.mem_of_getElem? hhead)
    | @take _ j f fs us hhead' hleast' hrest =>
      have hij : i = j := by
        rcases hleast j f fs hhead' with hlt | ⟨htime, hle⟩
        · rcases hleast' i e es hhead with hgt | ⟨htime, -⟩
          · exact absurd hlt hgt.asymm
          · exact absurd hlt htime.not_gt
        · rcases hleast' i e es hhead with hgt | ⟨-, hge⟩
          · exact absurd htime hgt.ne'
          · exact Nat.le_antisymm hle hge
      subst hij
      obtain ⟨rfl, rfl⟩ := List.cons.inj (Option.some.inj (hhead.symm.trans hhead'))
      rw [ih hrest]

theorem length_eq (h : Turns ss ts) : ts.length = (ss.map List.length).sum := by
  induction h with
  | spent hnone =>
    refine (List.sum_eq_zero_iff_forall_eq_nat.2 fun n hn => ?_).symm
    obtain ⟨s, hs, rfl⟩ := List.mem_map.1 hn
    rw [hnone s hs, List.length_nil]
  | take hhead _ _ ih =>
    rw [← List.length_flatten, length_flatten_set hhead, List.length_flatten, ← ih]
    rfl

end Turns

end FlowLog
