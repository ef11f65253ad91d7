import FlowLog.Store
import Mathlib.Data.List.Basic

/-! Bytes cut into lines, and lines taken into a store. Lines that a writer ended by line feeds are cut
where they were joined; the piece after the last line feed adds nothing when it is empty, so it does
not matter whether it counts as a line. -/

namespace FlowLog
namespace Lines

theorem push_lineFeed (pieces : List (List UInt8)) : push lineFeed pieces = [] :: pieces := if_pos rfl

theorem push_of_ne {b : UInt8} (hb : b ≠ lineFeed) (piece : List UInt8) (rest : List (List UInt8)) :
    push b (piece :: rest) = (b :: piece) :: rest := if_neg hb

/-- A line ends at its line feed. -/
theorem pieces_line {line : List UInt8} (hline : lineFeed ∉ line) (rest : List UInt8) :
    pieces (line ++ lineFeed :: rest) = line :: pieces rest := by
  induction line with
  | nil => exact push_lineFeed (pieces rest)
  | cons b line ih =>
    obtain ⟨hb, hline⟩ := not_or.1 (List.mem_cons.not.1 hline)
    rw [List.cons_append, pieces_cons, ih hline]
    exact push_of_ne (Ne.symm hb) line (pieces rest)

/-- Lines each ended by a line feed leave an empty piece behind the last one. -/
theorem pieces_flatMap {lines : List (List UInt8)} (hlines : ∀ l ∈ lines, lineFeed ∉ l) :
    pieces (lines.flatMap fun l => l ++ [lineFeed]) = lines ++ [[]] := by
  induction lines with
  | nil => rfl
  | cons l lines ih =>
    rw [List.flatMap_cons, List.append_assoc, List.singleton_append,
      pieces_line (hlines l List.mem_cons_self), ih fun k hk => hlines k (List.mem_cons_of_mem l hk)]
    rfl

/-- A reader meets all pieces but an empty last one. -/
theorem pieces_eq_lines (bs : List UInt8) : pieces bs = lines bs ∨ pieces bs = lines bs ++ [[]] := by
  unfold lines
  dsimp only
  split
  · rename_i hlast
    exact .inr (List.dropLast_append_getLast? _ hlast).symm
  · exact .inl rfl

theorem trimStart_of_head {b : UInt8} (hb : isBlank b = false) (bs : List UInt8) :
    trimStart (b :: bs) = b :: bs := by simp [trimStart, hb]

/-- Nothing is trimmed from a line between two bytes that are not blank. -/
theorem trim_of_ends {a b : UInt8} (ha : isBlank a = false) (hb : isBlank b = false)
    (bs : List UInt8) : trim (a :: bs ++ [b]) = a :: bs ++ [b] := by
  have hreverse : (a :: bs ++ [b]).reverse = b :: (a :: bs).reverse := by simp
  rw [trim, List.cons_append, trimStart_of_head ha, ← List.cons_append, hreverse,
    trimStart_of_head hb, ← hreverse, List.reverse_reverse]

end Lines

namespace Store

theorem accept_events (s : Store) (r : Except EventError Event) :
    (s.accept r).1.events = s.events ++ (s.accept r).2.toList := by
  unfold accept
  split
  · rfl
  · exact (List.append_nil _).symm
  · exact (List.append_nil _).symm

/-- What a line gives goes last. -/
theorem ingestLine_events (s : Store) (line : List UInt8) :
    (s.ingestLine line).1.events = s.events ++ (s.ingestLine line).2.toList := by
  unfold ingestLine ingestValue
  dsimp only
  split
  · exact (List.append_nil _).symm
  · split
    · split <;> exact accept_events _ _
    · exact (List.append_nil _).symm

@[simp] theorem ingestLine_nil (s : Store) : s.ingestLine [] = (s, none) := rfl

@[simp] theorem extendLines_nil (s : Store) : s.extendLines [] = s := rfl
@[simp] theorem extendLines_append (s : Store) (ls ks : List (List UInt8)) :
    s.extendLines (ls ++ ks) = (s.extendLines ls).extendLines ks := List.foldl_append
@[simp] theorem extendLines_singleton (s : Store) (l : List UInt8) :
    s.extendLines [l] = (s.ingestLine l).1 := rfl

/-- A file that is no array is taken line by line. -/
theorem loadBytes?_lines (s : Store) {bs : List UInt8} (h : isArray bs = false) :
    s.loadBytes? bs = some (s.extendLines (Lines.pieces bs)) := by
  simp [loadBytes?, loadBytes, h]

theorem extendLines_pieces (s : Store) (bs : List UInt8) :
    s.extendLines (Lines.pieces bs) = s.extendLines (Lines.lines bs) := by
  rcases Lines.pieces_eq_lines bs with h | h
  · rw [h]
  · rw [h, extendLines_append, extendLines_singleton, ingestLine_nil]

end Store
end FlowLog
