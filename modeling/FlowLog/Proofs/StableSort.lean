import FlowLog.Time.Timestamp
import Mathlib.Data.List.Sort
import Mathlib.Data.Prod.Lex

/-! Stable sorting by a rank. The sorted list is built from the head and the sorted tail, so sorting
commutes with keeping only the elements that pass a test, and elements of one rank stay in any
relation that their positions gave them. Instants are ranked by their microseconds. -/

namespace FlowLog

instance : LinearOrder Timestamp where
  le_refl a := Int.le_refl a.micros
  le_trans _ _ _ h k := Int.le_trans h k
  lt_iff_le_not_ge _ _ := Int.lt_iff_le_and_not_ge
  le_antisymm a b h k := by
    cases a
    cases b
    congr
    exact Int.le_antisymm h k
  le_total a b := Int.le_total a.micros b.micros
  toDecidableLE := inferInstance
  toDecidableEq := inferInstance
  toDecidableLT := inferInstance
  compare_eq_compareOfLessAndEq a b := by
    have h : a = b ↔ a.micros = b.micros := ⟨congrArg _, fun h => by cases a; cases b; congr⟩
    change compare a.micros b.micros = _
    simp only [compare, compareOfLessAndEq, Timestamp.lt_iff, h]

namespace StableSort

variable {α β : Type} [LinearOrder β] (rank : α → β)

theorem pairwise_mergeSort (l : List α) :
    (l.mergeSort fun a b => rank a ≤ rank b).Pairwise fun a b => rank a ≤ rank b := by
  refine List.Pairwise.imp of_decide_eq_true (List.pairwise_mergeSort ?_ ?_ l)
  · simpa using fun a b c => le_trans
  · simpa using fun a b => le_total (rank a) (rank b)

/-- The head goes in at the first place where nothing after it has a lower rank. -/
theorem mergeSort_cons (a : α) (l : List α) :
    ∃ xs ys, (a :: l).mergeSort (fun a b => rank a ≤ rank b) = xs ++ a :: ys ∧
      l.mergeSort (fun a b => rank a ≤ rank b) = xs ++ ys ∧
      (∀ b ∈ xs, rank b < rank a) ∧ ∀ b ∈ ys, rank a ≤ rank b := by
  have htrans : ∀ a b c, decide (rank a ≤ rank b) → decide (rank b ≤ rank c) →
      decide (rank a ≤ rank c) := by simpa using fun a b c => le_trans
  have htotal : ∀ a b, decide (rank a ≤ rank b) || decide (rank b ≤ rank a) := by
    simpa using fun a b => le_total (rank a) (rank b)
  obtain ⟨xs, ys, h, htail, hxs⟩ := List.mergeSort_cons htrans htotal a l
  have hsorted := pairwise_mergeSort rank (a :: l)
  rw [h] at hsorted
  refine ⟨xs, ys, h, htail, fun b hb => by simpa using hxs b hb, ?_⟩
  exact (List.pairwise_cons.1 (List.pairwise_append.1 hsorted).2.1).1

theorem mergeSort_cons_eq (a : α) (l : List α) :
    ((a :: l).mergeSort fun a b => rank a ≤ rank b) =
      List.orderedInsert (fun a b => rank a ≤ rank b) a
        (l.mergeSort fun a b => rank a ≤ rank b) := by
  obtain ⟨xs, ys, h, htail, hxs, hys⟩ := mergeSort_cons rank a l
  rw [h, htail]
  clear h htail
  induction xs with
  | nil =>
    cases ys with
    | nil => rfl
    | cons b ys => exact (if_pos (hys b List.mem_cons_self)).symm
  | cons b xs ih =>
    obtain ⟨hb, hxs⟩ := List.forall_mem_cons.1 hxs
    rw [List.cons_append, List.cons_append, List.orderedInsert_cons, if_neg (not_le.2 hb), ih hxs]

theorem filter_mergeSort (p : α → Bool) (l : List α) :
    (l.mergeSort fun a b => rank a ≤ rank b).filter p =
      (l.filter p).mergeSort fun a b => rank a ≤ rank b := by
  induction l with
  | nil => simp
  | cons a l ih =>
    obtain ⟨xs, ys, h, htail, hxs, hys⟩ := mergeSort_cons rank a l
    rw [htail, List.filter_append] at ih
    cases ha : p a with
    | false =>
      rw [h, List.filter_append, List.filter_cons_of_neg (by simp [ha]),
        List.filter_cons_of_neg (by simp [ha]), ih]
    | true =>
      -- Both lists put the head between the lower ranks of one list and the others.
      obtain ⟨us, vs, h', htail', hus, hvs⟩ := mergeSort_cons rank a (l.filter p)
      have hsplit : xs.filter p ++ ys.filter p = us ++ vs := ih.trans htail'
      have hlow {zs : List α} (hz : ∀ b ∈ zs, rank b < rank a) :
          zs.filter (fun b => decide (rank b < rank a)) = zs :=
        List.filter_eq_self.2 fun b hb => decide_eq_true (hz b hb)
      have hhigh {zs : List α} (hz : ∀ b ∈ zs, rank a ≤ rank b) :
          zs.filter (fun b => decide (rank b < rank a)) = [] :=
        List.filter_eq_nil_iff.2 fun b hb => by simpa using hz b hb
      have hleft := congrArg (List.filter fun b => decide (rank b < rank a)) hsplit
      rw [List.filter_append, List.filter_append, hlow hus, hhigh hvs,
        hlow fun b hb => hxs b (List.mem_of_mem_filter hb),
        hhigh fun b hb => hys b (List.mem_of_mem_filter hb), List.append_nil,
        List.append_nil] at hleft
      rw [hleft] at hsplit
      rw [h, List.filter_append, List.filter_cons_of_pos ha, List.filter_cons_of_pos ha, h', hleft,
        List.append_cancel_left hsplit]

theorem filter_rank_mergeSort (l : List α) (b : β) :
    (l.mergeSort fun a b => rank a ≤ rank b).filter (fun a => rank a = b) =
      l.filter fun a => rank a = b := by
  rw [filter_mergeSort]
  have hrank : ∀ a ∈ l.filter fun a => rank a = b, rank a = b := by
    intro a ha
    simpa using (List.mem_filter.1 ha).2
  refine List.mergeSort_of_pairwise (List.pairwise_of_forall_mem_list fun a ha c hc => ?_)
  rw [hrank a ha, hrank c hc]
  exact decide_eq_true le_rfl

/-- Elements of one rank stay in the relation that they had by position. -/
theorem pairwise_mergeSort_stable {R : α → α → Prop} {l : List α} (h : l.Pairwise R) :
    (l.mergeSort fun a b => rank a ≤ rank b).Pairwise
      fun a b => rank a < rank b ∨ rank a = rank b ∧ R a b := by
  induction l with
  | nil => simp
  | cons a l ih =>
    obtain ⟨hhead, hrest⟩ := List.pairwise_cons.1 h
    obtain ⟨xs, ys, h, htail, hxs, hys⟩ := mergeSort_cons rank a l
    have hmem : ∀ b ∈ ys, b ∈ l := by
      intro b hb
      have hsorted : b ∈ l.mergeSort fun a b => rank a ≤ rank b := by
        rw [htail]
        exact List.mem_append_right xs hb
      exact List.mem_mergeSort.1 hsorted
    have ih := ih hrest
    rw [htail, List.pairwise_append] at ih
    rw [h, List.pairwise_append, List.pairwise_cons]
    refine ⟨ih.1, ⟨fun b hb => ?_, ih.2.1⟩, fun b hb c hc => ?_⟩
    · exact (hys b hb).lt_or_eq.imp_right fun he => ⟨he, hhead b (hmem b hb)⟩
    · rcases List.mem_cons.1 hc with rfl | hc
      · exact .inl (hxs b hb)
      · exact ih.2.2 b hb c hc

/-- Elements of different ranks are sorted alike in whatever order they come. -/
theorem mergeSort_eq_of_perm {l m : List α} (h : l.Perm m) (hl : (l.map rank).Nodup) :
    (l.mergeSort fun a b => rank a ≤ rank b) = m.mergeSort fun a b => rank a ≤ rank b := by
  refine List.Perm.eq_of_pairwise ?_ (pairwise_mergeSort rank l) (pairwise_mergeSort rank m)
    ((List.mergeSort_perm l _).trans (h.trans (List.mergeSort_perm m _).symm))
  intro a b ha hb hab hba
  rw [List.mem_mergeSort] at ha hb
  exact List.inj_on_of_nodup_map hl ha (h.mem_iff.2 hb) (le_antisymm hab hba)

end StableSort
end FlowLog
