import FlowLog.Proofs.Objects
import FlowLog.Stream
import Mathlib.Data.List.Forall2

/-! What the streaming program prints. Each line is read back as one object, a focus with the summaries
of its connections or the indices, and a report is nothing but such lines. -/

namespace FlowLog

open Json

/-- Lines that are read as the values, one after the other. -/
def LinesOf (text : String) (vs : List Value) : Prop :=
  ∃ ls : List (List Char), text.toList = ls.flatMap (fun l => l ++ ['\n']) ∧
    List.Forall₂ (fun l v => '\n' ∉ l ∧ Value.read? l = some v) ls vs

namespace LinesOf

theorem nil : LinesOf "" [] := ⟨[], rfl, .nil⟩

theorem append {s t : String} {vs ws : List Value} (hs : LinesOf s vs) (ht : LinesOf t ws) :
    LinesOf (s ++ t) (vs ++ ws) := by
  obtain ⟨ls, hls, hvs⟩ := hs
  obtain ⟨ms, hms, hws⟩ := ht
  exact ⟨ls ++ ms, by rw [String.toList_append, hls, hms, List.flatMap_append],
    List.rel_append hvs hws⟩

theorem join {α : Type} {f : α → String} {g : α → Value} {xs : List α}
    (h : ∀ x ∈ xs, LinesOf (f x) [g x]) : LinesOf (String.join (xs.map f)) (xs.map g) := by
  induction xs with
  | nil => exact nil
  | cons x xs ih =>
    obtain ⟨hx, hxs⟩ := List.forall_mem_cons.1 h
    rw [List.map_cons, String.join_cons, List.map_cons]
    exact hx.append (ih hxs)

end LinesOf

theorem Connection.summary_plain (depth : Nat) (c : Connection) :
    Value.Plain (depth + 1) c.summary := by
  have hoption (x : Option String) : Value.Plain depth (.ofOption (x.map .string)) := by
    cases x with
    | none => exact .null depth
    | some s => exact .string depth s
  have hclosed := hoption (c.closed.map Timestamp.text)
  rw [Option.map_map] at hclosed
  refine .object ?_
  simp only [List.forall_mem_cons, List.not_mem_nil, false_imp_iff, implies_true, and_true]
  exact ⟨.string _ _, hclosed, .string _ _, .string _ _, hoption _, .natural _ _, .string _ _,
    hoption _, .natural _ _, .natural _ _, .natural _ _, .natural _ _, .natural _ _, .natural _ _⟩

theorem Indices.toValue_plain (depth : Nat) (x : Indices) : Value.Plain (depth + 2) x.toValue := by
  refine .object fun m hm => ?_
  obtain ⟨g, -, rfl⟩ := List.mem_map.1 hm
  exact Value.strings_plain depth g.2

namespace Stream

/-- Of any value one line is printed, which is read as the value in order. -/
theorem linesOf_line {v : Value} (h : Value.Plain Value.maxDepth v) : LinesOf (line v) [v.sorted] := by
  have htext : (line v).toList = [v.sorted.compact].flatMap fun l => l ++ ['\n'] := by
    rw [line, String.toList_append, Value.compactText, String.toList_ofList, List.flatMap_singleton]
    rfl
  refine ⟨_, htext, .cons ⟨Value.newline_notMem_compact h.sorted, ?_⟩ .nil⟩
  rw [Value.read?_compact h.sorted, h.sorted_sorted]

/-- A focus with its connections, the keys in order. -/
def focusValue (focus : String) (cs : List Connection) : Value :=
  .object [("connections", .array (cs.map fun c => c.summary.sorted)), ("focus", .string focus)]

def indicesValue (x : Indices) : Value :=
  .object [("indices", .object
    [("dns-clients", .strings x.dnsClients.toList), ("hostnames", .strings x.hostnames.toList),
      ("http-servers", .strings x.httpServers.toList),
      ("https-servers", .strings x.httpsServers.toList),
      ("ip-addresses", .strings x.ipAddresses.toList)])]

theorem linesOf_connectionsLine (s : Reconstruction) :
    LinesOf (connectionsLine s) [focusValue s.focus s.snapshot] := by
  have hplain : Value.Plain Value.maxDepth (.object [("focus", .string s.focus),
      ("connections", .array (s.snapshot.map Connection.summary))]) := by
    refine .object ?_
    simp only [List.forall_mem_cons, List.not_mem_nil, false_imp_iff, implies_true, and_true]
    exact ⟨.string _ _, .array (List.forall_mem_map.2 fun c _ => c.summary_plain _)⟩
  have hline := linesOf_line hplain
  simp (disch := decide) only [Value.sorted, Value.sortedMembers, Value.sortedElements_eq,
    Members.ofList, Members.insert, List.foldl_cons, List.foldl_nil, List.map_map, if_pos] at hline
  exact hline

theorem linesOf_indicesLine (x : Indices) : LinesOf (indicesLine x) [indicesValue x] := by
  have hplain : Value.Plain Value.maxDepth (.object [("indices", x.toValue)]) :=
    .object (List.forall_mem_singleton.2 (x.toValue_plain 124))
  have hline := linesOf_line hplain
  simp (disch := decide) only [Value.sorted, Value.sortedMembers, Value.strings_sorted,
    Indices.toValue, Indices.groups, Members.ofList, Members.insert, List.foldl_cons, List.foldl_nil,
    List.map_cons, List.map_nil, if_pos, if_neg] at hline
  exact hline

theorem linesOf_report (shared : List Reconstruction) (store : Store) :
    LinesOf (report shared (some store))
      ((shared.map fun s => focusValue s.focus s.snapshot) ++ [indicesValue store.indices]) :=
  (LinesOf.join fun s _ => linesOf_connectionsLine s).append (linesOf_indicesLine store.indices)

end Stream
end FlowLog
