import FlowLog.Proofs.Reached
import FlowLog.Proofs.Segment
import Mathlib

/-! The connections of a ledger are those that the segments of its events tell, and their order is
an order of the segments: by begin, then the open ones by the position of their begin events, then
the closed ones by the position of the events that closed them. -/

namespace FlowLog
namespace Ledger

/-! A step as one rule: what the event bounds is closed, the rest may grow, a begin is added. -/

theorem step_active (l : Ledger) (e : Event) :
    (l.step e).active = (l.active.filter fun c => !e.bounds c.key).map e.extend ++ e.opens := by
  obtain ⟨b, d⟩ := e
  have hid (d : Detail) (hd : ∀ k, Event.packet? k ⟨b, d⟩ = none) (cs : List Connection) :
      cs.map (Event.extend ⟨b, d⟩) = cs := by
    refine (List.map_congr_left fun c _ => ?_).trans (List.map_id cs)
    rw [Event.extend, hd]
    rfl
  cases d with
  | tcpBegin p =>
    rw [hid _ fun _ => rfl]
    simp [step, start, release, Event.bounds, Event.opens, eq_comm]
  | tcpEnd p closing =>
    rw [hid _ fun _ => rfl]
    simp [step, release, Event.bounds, Event.opens, eq_comm]
  | tcpData p payload =>
    have hextend (c : Connection) : Event.extend ⟨b, .tcpData p payload⟩ c =
        if c.key = b.key p then c.record ⟨b, p, payload⟩ else c := by
      by_cases hc : b.key p = c.key
      · simp [Event.extend, Event.packet?, hc]
      · simp [Event.extend, Event.packet?, hc, Ne.symm hc]
    simp [step, record, Event.bounds, Event.opens, hextend]
  | _ =>
    rw [hid _ fun _ => rfl]
    simp [step, Event.bounds, Event.opens]

theorem step_terminated (l : Ledger) (e : Event) :
    (l.step e).terminated =
      l.terminated ++ (l.active.filter fun c => e.bounds c.key).map e.close := by
  obtain ⟨b, d⟩ := e
  cases d with
  | tcpBegin p =>
    have hclose : (Event.close ⟨b, .tcpBegin p⟩) = id := rfl
    simp [step, start, release, Event.bounds, hclose, eq_comm]
  | tcpEnd p closing =>
    have hclose : (Event.close ⟨b, .tcpEnd p closing⟩) = (·.finish b closing) := rfl
    simp [step, release, Event.bounds, hclose, eq_comm]
  | _ => simp [step, record, Event.bounds]

theorem extend_key (e : Event) (c : Connection) : (e.extend c).key = c.key := by
  unfold Event.extend
  split
  · exact c.record_key _
  · rfl

theorem ofEvents_nodup (es : List Event) : ((ofEvents es).active.map Connection.key).Nodup := by
  induction es using List.reverseRecOn with
  | nil => exact List.nodup_nil
  | append_singleton es e ih =>
    have hkey : Connection.key ∘ e.extend = Connection.key := funext (extend_key e)
    rw [ofEvents_append, step_active, List.map_append, List.map_map, hkey, List.nodup_append]
    refine ⟨ih.sublist (List.filter_sublist.map _), ?_, fun k hk j hj => ?_⟩
    · unfold Event.opens
      split <;> simp
    · obtain ⟨c, hc, rfl⟩ := List.mem_map.1 hk
      obtain ⟨b, d⟩ := e
      cases d with
      | tcpBegin p =>
        have hj : j = b.key p := by simpa [Event.opens] using hj
        have hc : b.key p ≠ c.key := by simpa [Event.bounds] using (List.mem_filter.1 hc).2
        exact hj ▸ hc.symm
      | _ => simp [Event.opens] at hj

end Ledger

namespace Segment

/-- Where the segment stands: at its begin event while it is open, then at the event that closed
it. -/
def position (g : Segment) : Nat :=
  match g.stop with
  | some x => x.2
  | none => g.start

theorem position_of_open {g : Segment} (hg : g.isClosed = false) : g.position = g.start := by
  have hstop : g.stop = none := by simpa [isClosed] using hg
  rw [position, hstop]

/-- By begin; of those that began together the open ones go first, and open as well as closed ones
go by position. -/
def Precedes (g h : Segment) : Prop :=
  g.base.time < h.base.time ∨ g.base.time = h.base.time ∧
    (!g.isClosed ∧ h.isClosed ∨ g.isClosed = h.isClosed ∧ g.position < h.position)

theorem Precedes.asymm {g h : Segment} (hgh : g.Precedes h) : ¬h.Precedes g := by
  rintro (hlt | ⟨heq, hrest⟩)
  · rcases hgh with hlt' | ⟨heq', -⟩
    · exact lt_asymm hlt hlt'
    · exact hlt.ne' heq'
  · rcases hgh with hlt' | ⟨-, hrest'⟩
    · exact hlt'.ne' heq
    · cases hg : g.isClosed <;> cases hh : h.isClosed <;> simp [hg, hh] at hrest hrest' <;> omega

end Segment

theorem segmentsFrom_starts (n : Nat) (es : List Event) :
    (∀ g ∈ segmentsFrom n es, n ≤ g.start) ∧
      (segmentsFrom n es).Pairwise fun g h => g.start < h.start := by
  induction es generalizing n with
  | nil => simp [segmentsFrom]
  | cons e es ih =>
    obtain ⟨hle, hpairwise⟩ := ih (n + 1)
    obtain ⟨b, d⟩ := e
    cases d with
    | tcpBegin p =>
      refine ⟨fun g hg => ?_, List.pairwise_cons.2 ⟨fun g hg => hle g hg, hpairwise⟩⟩
      rcases List.mem_cons.1 hg with rfl | hg
      · exact Nat.le_refl n
      · exact Nat.le_of_succ_le (hle g hg)
    | _ => exact ⟨fun g hg => Nat.le_of_succ_le (hle g hg), hpairwise⟩

theorem map_see_open (gs : List Segment) (n : Nat) (e : Event) :
    (gs.map (Segment.see n e)).filter (fun g => !g.isClosed) =
      ((gs.filter fun g => !g.isClosed).filter fun g => !e.bounds g.key).map (Segment.see n e) := by
  rw [List.filter_map, List.filter_filter]
  refine congrArg _ (List.filter_congr fun g _ => ?_)
  rw [Function.comp_apply, Segment.see_isClosed, Bool.not_or, Bool.and_comm]

/-- What is closed after one more event was closed before or is closed by it. -/
theorem map_see_closed (gs : List Segment) (n : Nat) (e : Event) :
    ((gs.map (Segment.see n e)).filter Segment.isClosed).Perm
      (gs.filter Segment.isClosed ++
        ((gs.filter fun g => !g.isClosed).filter fun g => e.bounds g.key).map (Segment.see n e)) := by
  induction gs with
  | nil => exact .nil
  | cons g gs ih =>
    have hsee := Segment.see_isClosed g n e
    cases hg : g.isClosed with
    | true =>
      rw [hg, Bool.true_or] at hsee
      simpa [hg, hsee, Segment.see_closed hg] using ih
    | false =>
      rw [hg, Bool.false_or] at hsee
      cases he : e.bounds g.key with
      | true =>
        rw [he] at hsee
        simpa [hg, he, hsee] using (ih.cons _).trans List.perm_middle.symm
      | false =>
        rw [he] at hsee
        simpa [hg, he, hsee] using ih

theorem segmentsFrom_single (n : Nat) (e : Event) :
    ((segmentsFrom n [e]).filter fun g => !g.isClosed).map Segment.connection = e.opens ∧
      (segmentsFrom n [e]).filter Segment.isClosed = [] := by
  obtain ⟨b, d⟩ := e
  cases d <;> exact ⟨rfl, rfl⟩

theorem Event.bounds_unique {e : Event} {k j : ConnectionKey} (hk : e.bounds k) (hj : e.bounds j) :
    k = j := by
  obtain ⟨b, d⟩ := e
  cases d <;> simp [bounds] at hk hj
  all_goals exact hk.symm.trans hj

namespace Ledger

/-- The ledger of `n` events is made of their segments `gs`, of which `ts` are the closed ones in
the order they were closed. -/
structure MadeOf (l : Ledger) (gs ts : List Segment) (n : Nat) : Prop where
  active : l.active = (gs.filter fun g => !g.isClosed).map Segment.connection
  terminated : l.terminated = ts.map Segment.connection
  closed : ts.Perm (gs.filter Segment.isClosed)
  ordered : ts.Pairwise fun g h => g.position < h.position
  past : ∀ g ∈ ts, g.position < n

/-- The next event closes at most one open segment, which then goes last. -/
theorem MadeOf.step {l : Ledger} {gs ts : List Segment} {n : Nat} (h : l.MadeOf gs ts n)
    (hkeys : (l.active.map Connection.key).Nodup) (e : Event) :
    (l.step e).MadeOf (gs.map (Segment.see n e) ++ segmentsFrom n [e])
      (ts ++ ((gs.filter fun g => !g.isClosed).filter fun g => e.bounds g.key).map
        (Segment.see n e)) (n + 1) := by
  obtain ⟨hopens, hnone⟩ := segmentsFrom_single n e
  have hopen : ∀ g ∈ gs.filter fun g => !g.isClosed, g.isClosed = false := by
    intro g hg
    simpa using (List.mem_filter.1 hg).2
  have hposition : ∀ x ∈ ((gs.filter fun g => !g.isClosed).filter fun g => e.bounds g.key).map
      (Segment.see n e), x.position = n := by
    intro x hx
    obtain ⟨g, hg, rfl⟩ := List.mem_map.1 hx
    obtain ⟨hg, he⟩ := List.mem_filter.1 hg
    rw [Segment.see_of_bounds (hopen g hg) n he]
    rfl
  constructor
  case active =>
    rw [step_active, h.active, List.filter_map, List.filter_append, List.map_append, map_see_open,
      hopens, List.map_map, List.map_map]
    refine congrArg (· ++ e.opens) (List.map_congr_left fun g hg => ?_)
    obtain ⟨hg, he⟩ := List.mem_filter.1 hg
    exact (Segment.connection_of_not_bounds (hopen g hg) n (by simpa using he)).symm
  case terminated =>
    rw [step_terminated, h.terminated, h.active, List.filter_map, List.map_append, List.map_map,
      List.map_map]
    refine congrArg (ts.map Segment.connection ++ ·) (List.map_congr_left fun g hg => ?_)
    obtain ⟨hg, he⟩ := List.mem_filter.1 hg
    exact (Segment.connection_of_bounds (hopen g hg) n he).symm
  case closed =>
    rw [List.filter_append, hnone, List.append_nil]
    exact (h.closed.append_right _).trans (map_see_closed gs n e).symm
  case ordered =>
    refine List.pairwise_append.2 ⟨h.ordered, ?_, fun g hg x hx => hposition x hx ▸ h.past g hg⟩
    -- Two segments closed by one event would be open under one key.
    rw [h.active, List.map_map] at hkeys
    have hdistinct := (List.pairwise_map.1 hkeys).filter fun g => e.bounds g.key
    refine List.pairwise_map.2 (hdistinct.imp_of_mem fun hx hy hne => absurd ?_ hne)
    exact Event.bounds_unique (List.mem_filter.1 hx).2 (List.mem_filter.1 hy).2
  case past =>
    intro x hx
    rcases List.mem_append.1 hx with hx | hx
    · exact Nat.lt_succ_of_lt (h.past x hx)
    · exact hposition x hx ▸ Nat.lt_succ_self _

theorem ofEvents_madeOf (es : List Event) : ∃ ts, (ofEvents es).MadeOf (segments es) ts es.length := by
  induction es using List.reverseRecOn with
  | nil => exact ⟨[], ⟨rfl, rfl, .nil, .nil, by simp⟩⟩
  | append_singleton es e ih =>
    obtain ⟨ts, h⟩ := ih
    have hsegments : segments (es ++ [e]) =
        (segments es).map (Segment.see es.length e) ++ segmentsFrom es.length [e] := by
      simpa [segments] using segmentsFrom_append 0 es e
    rw [ofEvents_append, hsegments, List.length_append]
    exact ⟨_, h.step (ofEvents_nodup es) e⟩

end Ledger

theorem exists_arrangement (es : List Event) :
    ∃ gs : List Segment, gs.Perm (segments es) ∧ gs.Pairwise Segment.Precedes ∧
      (Ledger.ofEvents es).connections = gs.map Segment.connection := by
  obtain ⟨ts, h⟩ := Ledger.ofEvents_madeOf es
  let os := (segments es).filter fun g => !g.isClosed
  have hopen : ∀ g ∈ os, g.isClosed = false := by
    intro g hg
    simpa using (List.mem_filter.1 hg).2
  have hclosed : ∀ g ∈ ts, g.isClosed := fun g hg => (List.mem_filter.1 (h.closed.mem_iff.1 hg)).2
  have hpairwise : (os ++ ts).Pairwise fun g h =>
      !g.isClosed ∧ h.isClosed ∨ g.isClosed = h.isClosed ∧ g.position < h.position := by
    refine List.pairwise_append.2 ⟨?_, ?_, fun g hg g' hg' => .inl ⟨by simp [hopen g hg], hclosed g' hg'⟩⟩
    · refine ((segmentsFrom_starts 0 es).2.filter _).imp_of_mem fun hg hg' hlt => .inr ?_
      rw [hopen _ hg, hopen _ hg', Segment.position_of_open (hopen _ hg),
        Segment.position_of_open (hopen _ hg')]
      exact ⟨rfl, hlt⟩
    · exact h.ordered.imp_of_mem fun hg hg' hlt => .inr ⟨by rw [hclosed _ hg, hclosed _ hg'], hlt⟩
  refine ⟨(os ++ ts).mergeSort fun g h => g.base.time ≤ h.base.time, ?_, ?_, ?_⟩
  · exact (List.mergeSort_perm _ _).trans ((h.closed.append_left os).trans
      (List.perm_append_comm.trans (List.filter_append_perm Segment.isClosed _)))
  · exact StableSort.pairwise_mergeSort_stable (fun g => g.base.time) hpairwise
  · rw [Ledger.connections, h.active, h.terminated, ← List.map_append]
    exact (List.map_mergeSort (f := Segment.connection) fun g _ g' _ => rfl).symm

/-- The segments of the begin events in focus, each preceding those that come after it. -/
def Segment.Arrangement (focus : String) (es : List Event) (gs : List Segment) : Prop :=
  gs.Perm ((segments es).filter fun g => Reconstruction.inFocus focus g.base) ∧
    gs.Pairwise Segment.Precedes

theorem Segment.Arrangement.unique {focus : String} {es : List Event} {gs hs : List Segment}
    (hgs : Arrangement focus es gs) (hhs : Arrangement focus es hs) : hs = gs := by
  refine List.Perm.eq_of_pairwise ?_ hhs.2 hgs.2 (hhs.1.trans hgs.1.symm)
  exact fun a b _ _ hab hba => absurd hba hab.asymm

theorem exists_arrangement_in_focus (es : List Event) (focus : String) :
    ∃ gs, Segment.Arrangement focus es gs ∧
      ((Ledger.ofEvents es).connections.filter fun c => c.key.touches focus) =
        gs.map Segment.connection := by
  obtain ⟨gs, hperm, hpairwise, heq⟩ := exists_arrangement es
  refine ⟨gs.filter fun g => Reconstruction.inFocus focus g.base,
    ⟨hperm.filter _, hpairwise.filter _⟩, ?_⟩
  rw [heq, List.filter_map]
  refine congrArg _ (List.filter_congr fun g _ => ?_)
  exact ConnectionKey.touches_key focus g.base g.ports

theorem Reconstruction.inFocus_eq_decide (focus : String) (b : Base) :
    inFocus focus b = decide (b.source = focus ∨ b.destination = focus) := by
  rw [Bool.decide_or]
  rfl

/-- An address has one connection for each begin event from it or to it, as the event's segment tells
it. -/
theorem reconstruct_perm_segments (es : List Event) (focus : String) :
    (reconstruct es focus).Perm
      (((segments es).filter fun g => g.base.source = focus ∨ g.base.destination = focus).map
        Segment.connection) := by
  obtain ⟨gs, ⟨hperm, -⟩, heq⟩ := exists_arrangement_in_focus es focus
  simp only [Reconstruction.inFocus_eq_decide] at hperm
  rw [reconstruct_eq, heq]
  exact hperm.map Segment.connection

/-- However the open connections come to be listed, both results are the connections of the one
arrangement of the segments in focus. -/
theorem Reached.results_arranged {focus : String} {es : List Event} {s : Reconstruction}
    (h : Reached focus es s) :
    ∃ gs : List Segment, (∀ hs, Segment.Arrangement focus es hs ↔ hs = gs) ∧
      ∀ xs ys : Entries, xs.Perm s.active → ys.Perm s.active →
        Reconstruction.snapshot { s with active := xs } = gs.map Segment.connection ∧
        Reconstruction.finish { s with active := ys } = gs.map Segment.connection := by
  obtain ⟨gs, harranged, heq⟩ := exists_arrangement_in_focus es focus
  refine ⟨gs, fun hs => ⟨harranged.unique, fun he => he ▸ harranged⟩, fun xs ys hx hy => ?_⟩
  exact ⟨(h.reorder hx).snapshot_eq.trans heq, (h.reorder hy).finish_eq.trans heq⟩

/-- Three connections begun together, of which the first is closed, listed the other way round. -/
theorem results_of_equal_begins :
    let base : Base := ⟨1, ⟨0, by decide⟩, "a", "b", none, none⟩
    let es : List Event := [⟨base, .tcpBegin ⟨1000, 80⟩⟩, ⟨base, .tcpBegin ⟨2000, 80⟩⟩,
      ⟨base, .tcpBegin ⟨3000, 80⟩⟩, ⟨base, .tcpEnd ⟨1000, 80⟩ ⟨base.time, 0, 0⟩⟩]
    let t := (Reconstruction.new "a").processAll es
    let s : Reconstruction := { t with active := t.active.reverse }
    Reached "a" es s ∧ (s.snapshot.map fun c => c.client.port) = [2000, 3000, 1000] ∧
    ∃ gs : List Segment, (∀ hs, Segment.Arrangement "a" es hs ↔ hs = gs) ∧
      ∀ xs ys : Entries, xs.Perm s.active → ys.Perm s.active →
        Reconstruction.snapshot { s with active := xs } = gs.map Segment.connection ∧
        Reconstruction.finish { s with active := ys } = gs.map Segment.connection := by
  intro base es t s
  have h : Reached "a" es s := (Reached.new.processAll es).reorder t.active.reverse_perm
  exact ⟨h, by cbv, h.results_arranged⟩

end FlowLog
