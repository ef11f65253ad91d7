import FlowLog.Proofs.StableSort
import FlowLog.Reconstruction

/-! The open connections of a reconstruction, a map that may list its entries in any order. Keys and
slots are distinct and slots grow, so sorting by slots gives back the order in which the connections
were opened, and each operation on the map is an operation on the list so ordered. -/

namespace FlowLog
namespace Entries

/-- Each connection is listed once, under the key of its own endpoints, and the slots are distinct
and below the next one. -/
structure Sound (xs : Entries) (next : Nat) : Prop where
  own : ∀ x ∈ xs, x.connection.key = x.key
  keys : (xs.map Entry.key).Nodup
  slots : (xs.map Entry.slot).Nodup
  counted : ∀ x ∈ xs, x.slot < next

variable {xs ys : Entries} {next : Nat}

theorem nodup_map_append {β : Type} {f : Entry → β} (hxs : (xs.map f).Nodup) {y : Entry}
    (hy : ∀ x ∈ xs, f x ≠ f y) : ((xs ++ [y]).map f).Nodup := by
  rw [List.map_append, List.nodup_append]
  refine ⟨hxs, by simp, fun a ha b hb => ?_⟩
  obtain ⟨x, hx, rfl⟩ := List.mem_map.1 ha
  rw [List.map_singleton, List.mem_singleton] at hb
  exact hb ▸ hy x hx

namespace Sound

theorem nil : Sound [] 0 := ⟨by simp, by simp, by simp, by simp⟩

theorem perm (hx : xs.Sound next) (h : ys.Perm xs) : ys.Sound next where
  own x hmem := hx.own x (h.mem_iff.1 hmem)
  keys := (h.map _).nodup_iff.2 hx.keys
  slots := (h.map _).nodup_iff.2 hx.slots
  counted x hmem := hx.counted x (h.mem_iff.1 hmem)

theorem erase (hx : xs.Sound next) (k : ConnectionKey) : (xs.erase k).Sound next where
  own x hmem := hx.own x (List.mem_of_mem_filter hmem)
  keys := hx.keys.sublist (List.filter_sublist.map _)
  slots := hx.slots.sublist (List.filter_sublist.map _)
  counted x hmem := hx.counted x (List.mem_of_mem_filter hmem)

theorem append (hx : xs.Sound next) {c : Connection} (hc : ∀ x ∈ xs, x.key ≠ c.key) :
    Sound (xs ++ [⟨c.key, next, c⟩]) (next + 1) where
  own x hmem := by
    rcases List.mem_append.1 hmem with hmem | hmem
    · exact hx.own x hmem
    · rw [List.mem_singleton.1 hmem]
  keys := nodup_map_append hx.keys hc
  slots := nodup_map_append hx.slots fun x hmem => (hx.counted x hmem).ne
  counted x hmem := by
    rcases List.mem_append.1 hmem with hmem | hmem
    · exact Nat.lt_succ_of_lt (hx.counted x hmem)
    · rw [List.mem_singleton.1 hmem]
      exact Nat.lt_succ_self next

theorem modify (hx : xs.Sound next) (k : ConnectionKey) {f : Connection → Connection}
    (hf : ∀ c, (f c).key = c.key) : (xs.modify k f).Sound next where
  own x hmem := by
    obtain ⟨y, hy, rfl⟩ := List.mem_map.1 hmem
    split
    · exact (hf y.connection).trans (hx.own y hy)
    · exact hx.own y hy
  keys := by
    have hsame : (xs.modify k f).map Entry.key = xs.map Entry.key := by
      rw [Entries.modify, List.map_map]
      exact List.map_congr_left fun x _ => by dsimp only [Function.comp_apply]; split <;> rfl
    exact hsame ▸ hx.keys
  slots := by
    have hsame : (xs.modify k f).map Entry.slot = xs.map Entry.slot := by
      rw [Entries.modify, List.map_map]
      exact List.map_congr_left fun x _ => by dsimp only [Function.comp_apply]; split <;> rfl
    exact hsame ▸ hx.slots
  counted x hmem := by
    obtain ⟨y, hy, rfl⟩ := List.mem_map.1 hmem
    split <;> exact hx.counted y hy

end Sound

theorem inOrder_perm (hx : xs.Sound next) (h : ys.Perm xs) : ys.inOrder = xs.inOrder :=
  congrArg (List.map Entry.connection) (StableSort.mergeSort_eq_of_perm Entry.slot h.symm hx.slots).symm

theorem filter_inOrder (p : Connection → Bool) (xs : Entries) :
    xs.inOrder.filter p = inOrder (xs.filter fun x => p x.connection) := by
  rw [inOrder, List.filter_map, StableSort.filter_mergeSort Entry.slot]
  rfl

/-- A connection with a new slot comes last. -/
theorem inOrder_append (hx : xs.Sound next) {c : Connection} (hc : ∀ x ∈ xs, x.key ≠ c.key) :
    inOrder (xs ++ [⟨c.key, next, c⟩]) = xs.inOrder ++ [c] := by
  let x : Entry := ⟨c.key, next, c⟩
  let ys : List Entry := xs.mergeSort fun a b => a.slot ≤ b.slot
  have hsorted : (ys ++ [x]).Pairwise fun a b => a.slot ≤ b.slot := by
    refine List.pairwise_append.2 ⟨StableSort.pairwise_mergeSort Entry.slot xs, by simp, ?_⟩
    intro a ha b hb
    rw [List.mem_singleton.1 hb]
    exact (hx.counted a (List.mem_mergeSort.1 ha)).le
  have hperm : (xs ++ [x]).Perm (ys ++ [x]) := (List.mergeSort_perm xs _).symm.append_right _
  rw [inOrder, StableSort.mergeSort_eq_of_perm Entry.slot hperm (hx.append hc).slots,
    List.mergeSort_of_pairwise (by simpa using hsorted), List.map_append]
  rfl

theorem inOrder_modify (hx : xs.Sound next) (k : ConnectionKey) (f : Connection → Connection) :
    (xs.modify k f).inOrder = xs.inOrder.map fun c => if c.key = k then f c else c := by
  let change (x : Entry) : Entry := if x.key = k then { x with connection := f x.connection } else x
  have hslot (x : Entry) : (change x).slot = x.slot := by
    dsimp only [change]
    split <;> rfl
  have hsort : (xs.map change).mergeSort (fun a b => a.slot ≤ b.slot) =
      (xs.mergeSort fun a b => a.slot ≤ b.slot).map change :=
    (List.map_mergeSort fun a _ b _ => by rw [hslot, hslot]).symm
  have hconnection : ∀ x ∈ xs, (change x).connection =
      if x.connection.key = k then f x.connection else x.connection := by
    intro x hmem
    dsimp only [change]
    rw [hx.own x hmem]
    split <;> rfl
  change ((xs.map change).mergeSort fun a b => a.slot ≤ b.slot).map Entry.connection = _
  rw [hsort, inOrder, List.map_map, List.map_map]
  exact List.map_congr_left fun x hmem => hconnection x (List.mem_mergeSort.1 hmem)

theorem filter_key_eq_find (hkeys : (xs.map Entry.key).Nodup) (k : ConnectionKey) :
    (xs.filter fun x => x.key = k) = (xs.find? fun x => x.key = k).toList := by
  induction xs with
  | nil => rfl
  | cons x xs ih =>
    rw [List.map_cons, List.nodup_cons] at hkeys
    by_cases hx : x.key = k
    · have hnone : (xs.filter fun x => x.key = k) = [] := by
        refine List.filter_eq_nil_iff.2 fun y hy hk => hkeys.1 ?_
        exact List.mem_map.2 ⟨y, hy, (of_decide_eq_true hk).trans hx.symm⟩
      simp [hx, hnone]
    · simpa [hx] using ih hkeys.2

/-- Looking up a key finds the one connection that the key has. -/
theorem filter_key_inOrder (hx : xs.Sound next) (k : ConnectionKey) :
    (xs.inOrder.filter fun c => c.key = k) = (xs.get? k).toList := by
  have hown : (xs.filter fun x => x.connection.key = k) = xs.filter fun x => x.key = k :=
    List.filter_congr fun x hmem => by rw [hx.own x hmem]
  rw [filter_inOrder, hown, filter_key_eq_find hx.keys, get?]
  cases xs.find? fun x => x.key = k <;> simp [inOrder]

theorem filter_key_ne_inOrder (hx : xs.Sound next) (k : ConnectionKey) :
    (xs.inOrder.filter fun c => c.key ≠ k) = (xs.erase k).inOrder := by
  rw [filter_inOrder, erase]
  exact congrArg inOrder (List.filter_congr fun x hmem => by rw [hx.own x hmem])

end Entries
end FlowLog
