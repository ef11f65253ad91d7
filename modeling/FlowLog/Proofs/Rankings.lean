import FlowLog.Proofs.StableSort
import FlowLog.Ranking

/-! Rankings of closed connections. A ranking has just the ends of the events, its amounts ascend or
descend, and ends of one amount stand as they came; there is only one such list. Read backwards a
ranking turns around the ends of one amount as well, so the descending ranking is the ascending one
of the events read backwards, but in general not the ascending one read backwards. -/

namespace FlowLog

namespace StableSort

section
variable {α β : Type} [DecidableEq β] {r : β → β → Prop} {rank : α → β} {l m : List α}

theorem mem_iff_of_filter_rank
    (h : ∀ b, (l.filter fun a => rank a = b) = m.filter fun a => rank a = b) (a : α) :
    a ∈ l ↔ a ∈ m := by
  have ha : (a ∈ l.filter fun c => rank c = rank a) ↔ a ∈ m.filter fun c => rank c = rank a := by
    rw [h]
  simpa using ha

/-- Lists in order are equal if they have the same elements of each rank in the same places. What
they begin with has the same rank, since either stands in the other list. -/
theorem eq_of_filter_rank [Std.Antisymm r] (hl : l.Pairwise fun a b => r (rank a) (rank b))
    (hm : m.Pairwise fun a b => r (rank a) (rank b))
    (h : ∀ b, (l.filter fun a => rank a = b) = m.filter fun a => rank a = b) : l = m := by
  have hmem := mem_iff_of_filter_rank h
  induction l generalizing m with
  | nil => exact (List.eq_nil_iff_forall_not_mem.2 fun a ha => by simpa using (hmem a).2 ha).symm
  | cons a l ih =>
    cases m with
    | nil => simpa using (hmem a).1 List.mem_cons_self
    | cons b m =>
      obtain ⟨ha, hl'⟩ := List.pairwise_cons.1 hl
      obtain ⟨hb, hm'⟩ := List.pairwise_cons.1 hm
      have hrank : rank a = rank b := by
        rcases List.mem_cons.1 ((hmem b).2 List.mem_cons_self) with rfl | hbl
        · rfl
        rcases List.mem_cons.1 ((hmem a).1 List.mem_cons_self) with rfl | ham
        · rfl
        exact antisymm (r := r) (ha b hbl) (hb a ham)
      have hfirst := h (rank a)
      rw [List.filter_cons_of_pos (by simp), List.filter_cons_of_pos (by simp [hrank])] at hfirst
      obtain ⟨rfl, -⟩ := List.cons.inj hfirst
      have hrest (c : β) : (l.filter fun a => rank a = c) = m.filter fun a => rank a = c := by
        have hc := h c
        by_cases hac : rank a = c <;> simpa [hac] using hc
      rw [ih hl' hm' hrest (mem_iff_of_filter_rank hrest)]

/-- The elements of a list with their ranks in order, and those of one rank as they stand in the
list. -/
structure StablyOrdered (r : β → β → Prop) (rank : α → β) (l m : List α) : Prop where
  perm : m.Perm l
  ordered : m.Pairwise fun a b => r (rank a) (rank b)
  stable : ∀ b, (m.filter fun a => rank a = b) = l.filter fun a => rank a = b

namespace StablyOrdered

theorem unique [Std.Antisymm r] {m' : List α} (h : StablyOrdered r rank l m)
    (h' : StablyOrdered r rank l m') : m = m' :=
  eq_of_filter_rank h.ordered h'.ordered fun b => (h.stable b).trans (h'.stable b).symm

theorem reverse (h : StablyOrdered r rank l m) :
    StablyOrdered (fun a b => r b a) rank l.reverse m.reverse where
  perm := (List.reverse_perm m).trans (h.perm.trans (List.reverse_perm l).symm)
  ordered := List.pairwise_reverse.2 h.ordered
  stable b := by rw [List.filter_reverse, List.filter_reverse, h.stable]

/-- A list read backwards is in the place of another one if the elements of each rank come in the
same order when they are read backwards. -/
theorem of_reverse_iff (h : StablyOrdered r rank l.reverse m) :
    StablyOrdered r rank l m ↔
      ∀ b, (l.filter fun a => rank a = b).reverse = l.filter fun a => rank a = b := by
  have hstable (b : β) := h.stable b
  simp only [List.filter_reverse] at hstable
  constructor
  · intro h' b
    rw [← hstable, h'.stable]
  · intro hsame
    exact ⟨h.perm.trans (List.reverse_perm l), h.ordered, fun b => (hstable b).trans (hsame b)⟩

end StablyOrdered
end

variable {α β : Type} [LinearOrder β] (rank : α → β) (l : List α)

theorem stablyOrdered_ascending :
    StablyOrdered (· ≤ ·) rank l (l.mergeSort fun a b => rank a ≤ rank b) where
  perm := List.mergeSort_perm l _
  ordered := pairwise_mergeSort rank l
  stable := filter_rank_mergeSort rank l

theorem stablyOrdered_descending :
    StablyOrdered (· ≥ ·) rank l (l.mergeSort fun a b => rank b ≤ rank a) where
  perm := List.mergeSort_perm l _
  ordered := pairwise_mergeSort (OrderDual.toDual ∘ rank) l
  stable := filter_rank_mergeSort (OrderDual.toDual ∘ rank) l

end StableSort

namespace RankKey

/-- What a ranking compares, in whole numbers: the time between creation and end as 64 bits hold it,
and the bytes of both sides together up to a bound. -/
def amount : RankKey → Ending → Int
  | duration, x => (x.base.time.micros - x.closing.creation.micros).bmod Int64.size
  | transferredClient, x => x.closing.client.toNat
  | transferredServer, x => x.closing.server.toNat
  | transferred, x => min (UInt64.size - 1) (x.closing.client.toNat + x.closing.server.toNat)

theorem measure_eq_amount (k : RankKey) : k.measure = k.amount := by
  funext x
  cases k with
  | duration => exact Timestamp.since_eq_bmod x.base.time x.closing.creation
  | transferred =>
    simp only [measure, amount, Closing.transferred, addSaturating_toNat, UInt64.size]
    omega
  | _ => rfl

end RankKey

def endings (es : List Event) : List Ending := es.filterMap Ending.ofEvent?

def Ending.event (x : Ending) : Event := ⟨x.base, .tcpEnd x.ports x.closing⟩

/-- They are what the events of this kind have, and no other event gives one. -/
theorem map_event_endings (es : List Event) :
    (endings es).map Ending.event = es.filter fun e => e.kind = .tcpEnd := by
  induction es with
  | nil => rfl
  | cons e es ih =>
    obtain ⟨b, d⟩ := e
    cases d with
    | tcpEnd p closing => exact congrArg (_ :: ·) ih
    | _ => exact ih

theorem endings_reverse (es : List Event) : endings es.reverse = (endings es).reverse :=
  List.filterMap_reverse

section
open StableSort

variable (es : List Event) (k : RankKey)

theorem rank_ascending : StablyOrdered (· ≤ ·) k.amount (endings es) (rank es k .ascending) := by
  rw [← k.measure_eq_amount]
  exact stablyOrdered_ascending k.measure (endings es)

theorem rank_descending : StablyOrdered (· ≥ ·) k.amount (endings es) (rank es k .descending) := by
  rw [← k.measure_eq_amount]
  exact stablyOrdered_descending k.measure (endings es)

theorem rank_ascending_reverse :
    StablyOrdered (· ≥ ·) k.amount (endings es).reverse (rank es k .ascending).reverse :=
  (rank_ascending es k).reverse

theorem rank_descending_eq : rank es k .descending = (rank es.reverse k .ascending).reverse := by
  have h := rank_ascending_reverse es.reverse k
  rw [endings_reverse, List.reverse_reverse] at h
  exact (rank_descending es k).unique h

theorem rank_descending_eq_reverse_iff :
    rank es k .descending = (rank es k .ascending).reverse ↔
      ∀ n, ((endings es).filter fun x => k.amount x = n).reverse =
        (endings es).filter fun x => k.amount x = n := by
  rw [← (rank_ascending_reverse es k).of_reverse_iff]
  constructor
  · intro h
    exact h ▸ rank_descending es k
  · exact (rank_descending es k).unique

/-- Two ends that only their numbers tell apart, for each key a group that reads differently
backwards. -/
theorem exists_rank_descending_ne :
    ∃ fs, rank fs k .descending ≠ (rank fs k .ascending).reverse := by
  let t : Timestamp := ⟨0, by decide⟩
  let twin (n : UInt64) : Ending := ⟨⟨n, t, "a", "b", none, none⟩, ⟨1000, 80⟩, ⟨t, 0, 0⟩⟩
  refine ⟨[(twin 1).event, (twin 2).event], fun h => ?_⟩
  have hgroup := (rank_descending_eq_reverse_iff _ k).1 h 0
  revert hgroup
  cases k <;> decide

/-- A ranking has the ends of the events and no others; ascending and descending, it is the one list
of them in order of their amounts that leaves ends of one amount as they came. So the descending
ranking is that of the events read backwards, read backwards, and the ascending one read backwards
only if it makes no difference to the ends of any amount, which it does for some events. -/
theorem rank_stable :
    (endings es).map Ending.event = es.filter (fun e => e.kind = .tcpEnd) ∧
    (∀ xs, xs = rank es k .ascending ↔ StablyOrdered (· ≤ ·) k.amount (endings es) xs) ∧
    (∀ xs, xs = rank es k .descending ↔ StablyOrdered (· ≥ ·) k.amount (endings es) xs) ∧
    rank es k .descending = (rank es.reverse k .ascending).reverse ∧
    (rank es k .descending = (rank es k .ascending).reverse ↔
      ∀ n, ((endings es).filter fun x => k.amount x = n).reverse =
        (endings es).filter fun x => k.amount x = n) ∧
    ∃ fs, rank fs k .descending ≠ (rank fs k .ascending).reverse := by
  refine ⟨map_event_endings es, fun xs => ⟨?_, fun h => h.unique (rank_ascending es k)⟩,
    fun xs => ⟨?_, fun h => h.unique (rank_descending es k)⟩, rank_descending_eq es k,
    rank_descending_eq_reverse_iff es k, exists_rank_descending_ne k⟩
  · rintro rfl
    exact rank_ascending es k
  · rintro rfl
    exact rank_descending es k

end
end FlowLog
