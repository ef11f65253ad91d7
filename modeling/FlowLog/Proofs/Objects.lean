import FlowLog.Proofs.Events
import Mathlib.Data.String.Basic

/-! Objects as a reader gives them. Their keys ascend, so each stands there once, and what a record
reads under the name of a field is the one member of that name. -/

namespace FlowLog
namespace Json
namespace Members

variable {α : Type}

/-- The keys ascend. -/
def Ascending (ms : List (String × α)) : Prop := (ms.map Prod.fst).Pairwise (· < ·)

theorem insert_ascending (k : String) (x : α) {ms : List (String × α)} (h : Ascending ms) :
    Ascending (insert k x ms) := by
  induction ms with
  | nil => exact List.pairwise_singleton _ _
  | cons m ms ih =>
    obtain ⟨k', x'⟩ := m
    obtain ⟨hfirst, hrest⟩ := List.pairwise_cons.1 h
    unfold insert
    split
    · rename_i hlt
      refine List.pairwise_cons.2 ⟨fun l hl => ?_, h⟩
      rcases List.mem_cons.1 hl with rfl | hl
      · exact hlt
      · exact hlt.trans (hfirst l hl)
    · rename_i hle
      split
      · rename_i heq
        exact List.pairwise_cons.2 ⟨heq ▸ hfirst, hrest⟩
      · rename_i hne
        refine List.pairwise_cons.2 ⟨fun l hl => ?_, ih hrest⟩
        rcases key_mem_insert.1 hl with rfl | hl
        · exact lt_of_le_of_ne (not_lt.1 hle) (Ne.symm hne)
        · exact hfirst l hl

theorem ofList_ascending (ms : List (String × α)) : Ascending (ofList ms) := by
  have hfold : ∀ (ms done : List (String × α)), Ascending done →
      Ascending (ms.foldl (fun done m => insert m.1 m.2 done) done) := by
    intro ms
    induction ms with
    | nil => exact fun done h => h
    | cons m ms ih => exact fun done h => ih _ (insert_ascending m.1 m.2 h)
  exact hfold ms [] .nil

theorem insert_last {k : String} (x : α) {ms : List (String × α)} (h : ∀ m ∈ ms, m.1 < k) :
    insert k x ms = ms ++ [(k, x)] := by
  induction ms with
  | nil => rfl
  | cons m ms ih =>
    obtain ⟨hm, hms⟩ := List.forall_mem_cons.1 h
    rw [insert, if_neg hm.asymm, if_neg hm.ne', ih hms, List.cons_append]

theorem Ascending.ofList_eq {ms : List (String × α)} (h : Ascending ms) : ofList ms = ms := by
  induction ms using List.reverseRecOn with
  | nil => rfl
  | append_singleton ms m ih =>
    rw [Ascending, List.map_append, List.pairwise_append] at h
    obtain ⟨hms, -, hlast⟩ := h
    have hlt : ∀ n ∈ ms, n.1 < m.1 := fun n hn =>
      hlast n.1 (List.mem_map_of_mem hn) m.1 List.mem_cons_self
    rw [ofList, List.foldl_append, ← ofList, ih hms]
    exact insert_last m.2 hlt

theorem Ascending.nodup {ms : List (String × α)} (h : Ascending ms) : (ms.map Prod.fst).Nodup :=
  h.imp ne_of_lt

end Members

namespace Value

/-- An object holds each key once. -/
def Distinct : Value → Prop
  | object ms => (ms.map Prod.fst).Nodup
  | _ => True

end Value

namespace Tree

theorem value?_distinct {depth : Nat} {t : Tree} {v : Value} (h : t.value? depth = some v) :
    v.Distinct := by
  cases t with
  | null | bool =>
    rw [value?] at h
    cases h
    trivial
  | number | string =>
    rw [value?] at h
    obtain ⟨x, -, rfl⟩ := Option.map_eq_some_iff.1 h
    trivial
  | array xs =>
    cases depth with
    | zero => cases h
    | succ depth =>
      rw [value?] at h
      obtain ⟨vs, -, rfl⟩ := Option.map_eq_some_iff.1 h
      trivial
  | object ms =>
    cases depth with
    | zero => cases h
    | succ depth =>
      rw [value?] at h
      obtain ⟨xs, -, rfl⟩ := Option.map_eq_some_iff.1 h
      exact (Members.ofList_ascending xs).nodup

theorem elements?_distinct {depth : Nat} {ts : List Tree} {vs : List Value}
    (h : elements? depth ts = some vs) : ∀ v ∈ vs, v.Distinct := by
  induction ts generalizing vs with
  | nil =>
    cases h
    exact List.forall_mem_nil _
  | cons t ts ih =>
    rw [elements?] at h
    obtain ⟨v, hv, h⟩ := Option.bind_eq_some_iff.1 h
    obtain ⟨us, hus, h⟩ := Option.bind_eq_some_iff.1 h
    cases h
    exact List.forall_mem_cons.2 ⟨value?_distinct hv, ih hus⟩

end Tree

namespace Value

theorem read?_distinct {s : List Char} {v : Value} (h : read? s = some v) : v.Distinct := by
  obtain ⟨t, -, ht⟩ := Option.bind_eq_some_iff.1 h
  exact Tree.value?_distinct ht

theorem read?_elements_distinct {s : List Char} {vs : List Value}
    (h : read? s = some (.array vs)) : ∀ v ∈ vs, v.Distinct := by
  obtain ⟨t, -, ht⟩ := Option.bind_eq_some_iff.1 h
  cases t with
  | array xs =>
    rw [maxDepth, Tree.value?] at ht
    obtain ⟨us, hus, he⟩ := Option.map_eq_some_iff.1 ht
    cases he
    exact Tree.elements?_distinct hus
  | _ => simp [Tree.value?, maxDepth] at ht

/-! Values with their members in order. -/

theorem sortedElements_eq (xs : List Value) : sortedElements xs = xs.map sorted := by
  induction xs <;> simp_all [sortedElements]

theorem sortedMembers_eq (ms : List (String × Value)) :
    sortedMembers ms = ms.map fun m => (m.1, m.2.sorted) := by
  induction ms <;> simp_all [sortedMembers]

theorem Plain.sorted {depth : Nat} {v : Value} (h : Plain depth v) : Plain depth v.sorted := by
  induction h with
  | null => exact .null _
  | bool => exact .bool _ _
  | natural => exact .natural _ _
  | string => exact .string _ _
  | array _ ih =>
    rw [Value.sorted, sortedElements_eq]
    exact .array (List.forall_mem_map.2 ih)
  | object _ ih =>
    rw [Value.sorted, sortedMembers_eq]
    refine .object fun m hm => ?_
    obtain ⟨n, hn, rfl⟩ := List.mem_map.1 (Members.mem_of_mem_ofList hm)
    exact ih n hn

theorem Plain.sorted_sorted {depth : Nat} {v : Value} (h : Plain depth v) :
    v.sorted.sorted = v.sorted := by
  induction h with
  | array _ ih =>
    rw [Value.sorted, sortedElements_eq, Value.sorted,
      sortedElements_of_sorted (List.forall_mem_map.2 ih)]
  | @object _ ms _ ih =>
    have hvalues : ∀ m ∈ Members.ofList (sortedMembers ms), m.2.sorted = m.2 := by
      intro m hm
      rw [sortedMembers_eq] at hm
      obtain ⟨n, hn, rfl⟩ := List.mem_map.1 (Members.mem_of_mem_ofList hm)
      exact ih n hn
    rw [Value.sorted, Value.sorted, sortedMembers_of_sorted hvalues,
      (Members.ofList_ascending _).ofList_eq]
  | _ => rfl

end Value
end Json

open Json

namespace Record

variable {r s : Record} {f : Field} {k : String} {v : Value}

theorem decodeMember_self (h : r.decodeMember f.name v = .ok s) : f.decode v = .ok (s.get f) := by
  rw [decodeMember, Field.ofName?_name] at h
  dsimp only at h
  cases hv : f.decode v with
  | error m =>
    rw [hv] at h
    cases h
  | ok x =>
    rw [hv] at h
    cases h
    rw [put_get_self]

theorem decodeMember_ne (hk : f.name ≠ k) (h : r.decodeMember k v = .ok s) :
    s.get f = r.get f := by
  unfold decodeMember at h
  split at h
  · cases h
    rfl
  · rename_i g hg
    have hne : g ≠ f := by
      rintro rfl
      exact hk (by simpa using List.find?_some hg)
    cases hv : g.decode v with
    | error m =>
      rw [hv] at h
      cases h
    | ok x =>
      rw [hv] at h
      cases h
      exact put_get_ne r x hne

/-- A field is what the member under its name is decoded to, and stays as it was without one. -/
theorem decodeMembers_get {ms : List (String × Value)} (hkeys : (ms.map Prod.fst).Nodup)
    (h : r.decodeMembers ms = .ok s) (f : Field) :
    (Members.get? f.name ms).elim (.ok (r.get f)) f.decode = .ok (s.get f) := by
  induction ms generalizing r with
  | nil =>
    cases h
    rfl
  | cons m ms ih =>
    obtain ⟨k, v⟩ := m
    obtain ⟨hk, hkeys⟩ := List.nodup_cons.1 hkeys
    obtain ⟨t, ht, h⟩ := bind_eq_ok.1 h
    have hrest := ih hkeys h
    by_cases hf : f.name = k
    · have hlater : Members.get? f.name ms = none := by
        rw [← Option.not_isSome_iff_eq_none, Members.get?_isSome, hf]
        exact hk
      rw [hlater] at hrest
      rw [Members.get?, if_pos hf, Option.elim_some, ← hrest]
      subst hf
      exact decodeMember_self ht
    · rw [Members.get?, if_neg hf, ← decodeMember_ne hf ht]
      exact hrest

theorem ofValue_get {ms : List (String × Value)} (hkeys : (ms.map Prod.fst).Nodup)
    (h : ofValue (.object ms) = .ok s) (f : Field) :
    (Members.get? f.name ms).elim (.ok none) f.decode = .ok (s.get f) :=
  decodeMembers_get hkeys h f

end Record
end FlowLog
