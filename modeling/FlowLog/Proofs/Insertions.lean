import FlowLog.Proofs.FirstOccurrences
import Mathlib.Data.Finset.Card

/-! Runs of insertions into an empty set. The list has what was inserted, in the order of the first
insertions, and the test answers for the list; so sets with one list are one set, and no later insertion
or question tells them apart. -/

namespace FlowLog
namespace InsertionSet

variable {α : Type} [DecidableEq α]

theorem ofList_concat (xs : List α) (x : α) : ofList (xs ++ [x]) = (ofList xs).insert x :=
  insertAll_append empty xs [x]

theorem mem_ofList {xs : List α} {x : α} : x ∈ (ofList xs).toList ↔ x ∈ xs := by
  rw [ofList_toList, List.mem_eraseDups]

theorem contains_ofList {xs : List α} {x : α} : (ofList xs).contains x ↔ x ∈ xs :=
  contains_iff.trans mem_ofList

theorem isNew_ofList {xs : List α} {x : α} : (ofList xs).isNew x ↔ x ∉ xs := by
  rw [isNew_eq, ← contains_ofList]
  simp

/-- Elements stand in the order in which they first stand among what was inserted. -/
theorem ofList_pairwise (xs : List α) :
    (ofList xs).toList.Pairwise fun x y => xs.idxOf x < xs.idxOf y := by
  induction xs using List.reverseRecOn with
  | nil => exact .nil
  | append_singleton xs x ih =>
    have hbefore : (ofList xs).toList.Pairwise fun y z =>
        (xs ++ [x]).idxOf y < (xs ++ [x]).idxOf z := by
      refine ih.imp_of_mem fun hy hz h => ?_
      rwa [List.idxOf_append_of_mem (mem_ofList.1 hy), List.idxOf_append_of_mem (mem_ofList.1 hz)]
    rw [ofList_concat, insert_toList]
    split
    · exact hbefore
    · rename_i hx
      refine List.pairwise_append.2 ⟨hbefore, List.pairwise_singleton _ x, fun y hy z hz => ?_⟩
      obtain rfl := List.mem_singleton.1 hz
      have hy' := mem_ofList.1 hy
      -- All that was inserted before stands in front of the new element.
      rw [List.idxOf_append_of_mem hy', List.idxOf_append_of_notMem fun h => hx (mem_ofList.2 h)]
      exact Nat.lt_add_right _ (List.idxOf_lt_length_of_mem hy')

theorem size_ofList (xs : List α) : (ofList xs).size = xs.toFinset.card := by
  have hsame : (ofList xs).toList.toFinset = xs.toFinset := by
    ext x
    rw [List.mem_toFinset, List.mem_toFinset, mem_ofList]
  rw [← hsame, List.toFinset_card_of_nodup (ofList xs).nodup, size]

theorem ofList_beq_iff {xs ys : List α} :
    (ofList xs == ofList ys) ↔ xs.eraseDups = ys.eraseDups := by
  rw [beq_iff_eq, InsertionSet.ext_iff, ofList_toList, ofList_toList]

/-- An insertion goes on to the set of one value more, and tells whether the value is new. -/
theorem add_ofList (xs : List α) (x : α) :
    (ofList xs).add x = (ofList (xs ++ [x]), decide (x ∉ xs)) := by
  have hanswer : (ofList xs).isNew x = decide (x ∉ xs) := by
    rw [Bool.eq_iff_iff, isNew_ofList, decide_eq_true_iff]
  exact Prod.ext (ofList_concat xs x).symm hanswer

/-- A set built by insertions lists what was inserted, each once and in the order of the first
occurrences. A further insertion adds a value that was not inserted before and says so, and a question
is answered by what was inserted. Sets are equal when they have the same first occurrences, and then
agree on all that is asked or inserted later. -/
theorem ofList_first_occurrences (xs : List α) :
    (ofList xs).toList = xs.eraseDups ∧
    (ofList xs).toList.Pairwise (fun x y => xs.idxOf x < xs.idxOf y) ∧
    (∀ x, (ofList xs).add x = (ofList (xs ++ [x]), decide (x ∉ xs))) ∧
    (∀ x, (ofList xs).contains x ↔ x ∈ xs) ∧
    (ofList xs).size = xs.toFinset.card ∧
    ∀ ys, ((ofList xs == ofList ys) ↔ xs.eraseDups = ys.eraseDups) ∧
      ((ofList xs == ofList ys) → ∀ zs x,
        ((ofList xs).insertAll zs).contains x = ((ofList ys).insertAll zs).contains x ∧
        ((ofList xs).insertAll zs).add x = ((ofList ys).insertAll zs).add x) := by
  refine ⟨ofList_toList xs, ofList_pairwise xs, add_ofList xs, fun x => contains_ofList,
    size_ofList xs, fun ys => ⟨ofList_beq_iff, fun h zs x => ?_⟩⟩
  -- What is compared are the lists, but they leave nothing else open.
  have hsame : ofList xs = ofList ys := eq_of_beq h
  rw [hsame]
  exact ⟨rfl, rfl⟩

/-- A value that comes again changes nothing, now or later. -/
theorem ofList_first_occurrences_again :
    (ofList ["b", "a", "b"] == ofList ["b", "a"]) ∧
      ((ofList ["b", "a", "b"]).insertAll ["c"]).add "a" =
        ((ofList ["b", "a"]).insertAll ["c"]).add "a" := by
  have hsame : (ofList ["b", "a", "b"] == ofList ["b", "a"]) = true := by decide
  obtain ⟨-, -, -, -, -, hys⟩ := ofList_first_occurrences ["b", "a", "b"]
  exact ⟨hsame, ((hys ["b", "a"]).2 hsame ["c"] "a").2⟩

end InsertionSet
end FlowLog
