import FlowLog.Connection.Report
import FlowLog.Proofs.Merging
import FlowLog.Proofs.Relabeling
import Mathlib.Data.List.FinRange

/-! A capture cut into streams and merged again. The streams hold the positions of the capture, each
in order, and sorting all of them by time gives the positions back: earlier times stood earlier, and
of one time the streams and the order within each keep what stood first. Only the numbers of the
events are new, and nothing that is reported of a connection tells them. -/

namespace FlowLog

section
variable {n k : Nat} (place : Fin n → Fin k)

def parts : List (List (Fin n)) := List.ofFn fun j => (List.finRange n).filter fun i => place i = j

theorem pairwise_parts :
    (parts place).flatten.Pairwise fun a b => place a < place b ∨ place a = place b ∧ a < b := by
  refine List.pairwise_flatten.2 ⟨fun l hl => ?_, List.pairwise_ofFn.2 fun i j hij a ha b hb => ?_⟩
  · obtain ⟨j, rfl⟩ := List.mem_ofFn.1 hl
    have hlt := (List.pairwise_lt_finRange n).sublist
      (List.filter_sublist (p := fun i => decide (place i = j)))
    refine hlt.imp_of_mem fun {a b} ha hb hab => .inr ⟨?_, hab⟩
    simp only [List.mem_filter, decide_eq_true_eq] at ha hb
    exact ha.2.trans hb.2.symm
  · simp only [List.mem_filter, decide_eq_true_eq] at ha hb
    rw [ha.2, hb.2]
    exact .inl hij

theorem parts_perm : (parts place).flatten.Perm (List.finRange n) := by
  have hnodup : (parts place).flatten.Nodup := by
    refine (pairwise_parts place).imp fun {a b} hab => ?_
    rintro rfl
    simp at hab
  rw [List.perm_ext_iff_of_nodup hnodup (List.nodup_finRange n)]
  intro i
  simp [parts, List.mem_flatten, List.mem_ofFn]

/-- Sorted by a rank that ascends along the positions, the positions of all streams are in order, if
of one rank the earlier position is in the earlier stream. -/
theorem mergeSort_parts {β : Type} [LinearOrder β] {rank : Fin n → β}
    (hrank : ∀ i j, i ≤ j → rank i ≤ rank j)
    (hplace : ∀ i j, i ≤ j → rank i = rank j → place i ≤ place j) :
    ((parts place).flatten.mergeSort fun a b => rank a ≤ rank b) = List.finRange n := by
  have hstable := StableSort.pairwise_mergeSort_stable rank (pairwise_parts place)
  have hlt : ((parts place).flatten.mergeSort fun a b => rank a ≤ rank b).Pairwise (· < ·) := by
    refine hstable.imp fun {a b} hab => ?_
    by_contra hba
    rw [not_lt] at hba
    rcases hab with hlt | ⟨heq, hlt | ⟨-, hlt⟩⟩
    · exact absurd (hrank b a hba) (not_le.2 hlt)
    · exact absurd (hplace b a hba heq.symm) (not_le.2 hlt)
    · exact absurd hba (not_le.2 hlt)
  refine List.Perm.eq_of_pairwise (fun a b _ _ hab hba => absurd hab hba.asymm) hlt
    (List.pairwise_lt_finRange n) ((List.mergeSort_perm _ _).trans (parts_perm place))

end

/-- The streams that the events are assigned to, each in the order of the events. -/
def split (es : List Event) {k : Nat} (place : Fin es.length → Fin k) : List (List Event) :=
  (parts place).map (List.map es.get)

theorem split_sorted {es : List Event} (h : es.Pairwise fun a b => a.time ≤ b.time) {k : Nat}
    (place : Fin es.length → Fin k) :
    ∀ s ∈ split es place, s.Pairwise fun a b => a.time ≤ b.time := by
  intro s hs
  simp only [split, parts, List.mem_map, List.mem_ofFn] at hs
  obtain ⟨_, ⟨j, rfl⟩, rfl⟩ := hs
  apply List.Pairwise.sublist _ h
  have hsub := (List.filter_sublist (p := fun i => decide (place i = j))
    (l := List.finRange es.length)).map es.get
  rwa [List.map_get_finRange] at hsub

theorem mergeSort_split {es : List Event} (h : es.Pairwise fun a b => a.time ≤ b.time) {k : Nat}
    {place : Fin es.length → Fin k}
    (hplace : ∀ i j, i ≤ j → (es.get i).time = (es.get j).time → place i ≤ place j) :
    ((split es place).flatten.mergeSort fun a b => a.time ≤ b.time) = es := by
  have hrank : ∀ i j, i ≤ j → (es.get i).time ≤ (es.get j).time := by
    intro i j hij
    rcases hij.lt_or_eq with hlt | rfl
    · exact List.pairwise_iff_get.1 h i j hlt
    · exact le_rfl
  rw [split, ← List.map_flatten, ← List.map_mergeSort (f := es.get)
    (r := fun a b => decide ((es.get a).time ≤ (es.get b).time)) fun _ _ _ _ => rfl,
    mergeSort_parts place hrank hplace, List.map_get_finRange]

/-! Reports do not tell the numbers of events. -/

theorem Event.relabel_unnumbered : Event.relabel id (fun _ => 0) = Event.unnumbered := rfl

namespace Connection

variable (c : Connection) (ν : UInt64 → UInt64)

theorem summary_numbers : (c.relabel id ν).summary = c.summary := by
  simp [summary, relabel, Endpoint.relabel]

theorem rows_numbers : (c.relabel id ν).rows = c.rows := by
  show (c.packets.map (Packet.relabel id ν)).map _ = _
  rw [List.map_map]
  apply List.map_congr_left
  intro p _
  rw [Function.comp_apply, direction_relabel Function.injective_id]
  rfl

theorem series_numbers (d : Direction) : (c.relabel id ν).series d = c.series d := by
  have hdirection (p : Packet) : (c.relabel id ν).direction (p.relabel id ν) = c.direction p :=
    direction_relabel Function.injective_id ν c p
  have hpoints : ((c.relabel id ν).packets.filter fun p => (c.relabel id ν).direction p = d) =
      (c.packets.filter fun p => c.direction p = d).map (Packet.relabel id ν) := by
    show (c.packets.map (Packet.relabel id ν)).filter _ = _
    simp only [List.filter_map, Function.comp_def, hdirection]
  rw [series, hpoints, List.map_map]
  rfl

end Connection

/-- Events that differ in their numbers only have connections that are reported alike. -/
theorem map_reconstruct_numbers {β : Type} {report : Connection → β}
    (hreport : ∀ c : Connection, report (c.relabel id fun _ => 0) = report c) {es fs : List Event}
    (h : es.map Event.unnumbered = fs.map Event.unnumbered) (focus : String) :
    (reconstruct es focus).map report = (reconstruct fs focus).map report := by
  have hnumbers (gs : List Event) : (reconstruct gs focus).map report =
      (reconstruct (gs.map Event.unnumbered) focus).map report := by
    have hgs := reconstruct_relabel Function.injective_id (fun _ => 0) gs focus
    rw [id_eq, Event.relabel_unnumbered] at hgs
    simp [hgs, Function.comp_def, hreport]
  rw [hnumbers es, h, ← hnumbers]

/-- A capture in order of time that is split, the events of one time among streams in the order of
the events, is merged into itself with numbers from one, and its connections are reported alike. -/
theorem mergeStreams_split {es : List Event} {k : Nat} {place : Fin es.length → Fin k}
    (htime : es.Pairwise fun a b => a.time ≤ b.time)
    (hplace : ∀ i j, i ≤ j → (es.get i).time = (es.get j).time → place i ≤ place j) :
    Numbered es (mergeStreams (split es place)) ∧
    ∀ focus,
      (reconstruct (mergeStreams (split es place)) focus).map Connection.summary =
        (reconstruct es focus).map Connection.summary ∧
      (reconstruct (mergeStreams (split es place)) focus).map Connection.rows =
        (reconstruct es focus).map Connection.rows ∧
      ∀ d : Direction,
        (reconstruct (mergeStreams (split es place)) focus).map (Connection.series · d) =
          (reconstruct es focus).map (Connection.series · d) := by
  have hmerge := mergeStreams_numbered (split es place)
  rw [interleave_eq_mergeSort (split_sorted htime place), mergeSort_split htime hplace] at hmerge
  refine ⟨hmerge, fun focus => ⟨?_, ?_, fun d => ?_⟩⟩
  · exact map_reconstruct_numbers (fun c => c.summary_numbers _) hmerge.others focus
  · exact map_reconstruct_numbers (fun c => c.rows_numbers _) hmerge.others focus
  · exact map_reconstruct_numbers (fun c => c.series_numbers _ d) hmerge.others focus

/-- Two times with two events each, one of them in an earlier stream than an event before it. -/
theorem mergeStreams_split_of_ties :
    let early : Timestamp := ⟨0, by decide⟩
    let late : Timestamp := ⟨5, by decide⟩
    let es : List Event :=
      [⟨⟨7, early, "a", "b", none, none⟩, .tcpBegin ⟨1000, 80⟩⟩,
        ⟨⟨7, early, "b", "a", none, none⟩, .tcpData ⟨80, 1000⟩ 3⟩,
        ⟨⟨2, late, "a", "b", none, none⟩, .tcpData ⟨1000, 80⟩ 4⟩,
        ⟨⟨9, late, "b", "a", none, none⟩, .tcpEnd ⟨80, 1000⟩ ⟨early, 4, 3⟩⟩]
    let place (i : Fin es.length) : Fin 3 := ⟨(i.val + 1) % 3, Nat.mod_lt _ (by decide)⟩
    (es.Pairwise fun a b => a.time ≤ b.time) ∧
    (∀ i j, i ≤ j → (es.get i).time = (es.get j).time → place i ≤ place j) ∧
    Numbered es (mergeStreams (split es place)) ∧
    ((mergeStreams (split es place)).map fun e => e.base.number) = [1, 2, 3, 4] ∧
    (reconstruct (mergeStreams (split es place)) "a").map Connection.rows =
      (reconstruct es "a").map Connection.rows := by
  intro early late es place
  have htime : es.Pairwise fun a b => a.time ≤ b.time := by decide
  have hplace : ∀ i j, i ≤ j → (es.get i).time = (es.get j).time → place i ≤ place j := by decide
  obtain ⟨hmerge, hreports⟩ := mergeStreams_split htime hplace
  exact ⟨htime, hplace, hmerge, hmerge.numbers, (hreports "a").2.1⟩

end FlowLog
