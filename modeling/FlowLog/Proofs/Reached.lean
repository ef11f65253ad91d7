import FlowLog.Proofs.Entries
import FlowLog.Proofs.Ledger

/-! The states of a reconstruction. A state reached by some events holds the part of their ledger
that touches the focus, however its map of open connections came to be listed in between; so its
results are the connections of the whole ledger that have the focus as an address. -/

namespace FlowLog

/-- The states that events lead to. At any moment the open connections may come to be listed in
another order. -/
inductive Reached (focus : String) : List Event → Reconstruction → Prop
  | new : Reached focus [] (.new focus)
  | process {es : List Event} {s : Reconstruction} (e : Event) :
      Reached focus es s → Reached focus (es ++ [e]) (s.process e)
  | reorder {es : List Event} {s : Reconstruction} {xs : Entries} :
      Reached focus es s → xs.Perm s.active → Reached focus es { s with active := xs }

namespace Reconstruction

/-- The state keeps just the connections of the ledger. -/
structure Holds (s : Reconstruction) (l : Ledger) : Prop where
  sound : s.active.Sound s.nextSlot
  active : s.active.inOrder = l.active
  terminated : s.terminated = l.terminated

namespace Holds

variable {s : Reconstruction} {l : Ledger}

theorem reorder (h : s.Holds l) {xs : Entries} (hx : xs.Perm s.active) :
    Holds { s with active := xs } l where
  sound := h.sound.perm hx
  active := (Entries.inOrder_perm h.sound hx).trans h.active
  terminated := h.terminated

theorem filter_key (h : s.Holds l) (k : ConnectionKey) :
    (l.active.filter fun c => c.key = k) = (s.active.get? k).toList := by
  rw [← h.active, Entries.filter_key_inOrder h.sound]

/-- Without an open connection under the key there is nothing to release. -/
theorem release_of_none (h : s.Holds l) {k : ConnectionKey} (hk : s.active.get? k = none)
    (last : Connection → Connection) : l.release k last = l := by
  have hnone : (l.active.filter fun c => c.key = k) = [] := by rw [h.filter_key, hk]; rfl
  have hall : (l.active.filter fun c => c.key ≠ k) = l.active := by
    rw [List.filter_eq_self]
    intro c hc
    simpa using List.filter_eq_nil_iff.1 hnone c hc
  simp only [Ledger.release, hnone, hall, List.map_nil, List.append_nil]

/-- The connection under the key moves to the terminated ones. -/
theorem release_of_some (h : s.Holds l) {k : ConnectionKey} {c : Connection}
    (hk : s.active.get? k = some c) (last : Connection → Connection) (stats : Stats) :
    Holds { s with
      active := s.active.erase k
      terminated := s.terminated ++ [last c]
      stats := stats } (l.release k last) where
  sound := h.sound.erase k
  active := by rw [Ledger.release, ← h.active, Entries.filter_key_ne_inOrder h.sound]
  terminated := by rw [Ledger.release, h.filter_key, hk, h.terminated]; rfl

theorem supersede (h : s.Holds l) (k : ConnectionKey) :
    (s.supersede k).Holds (l.release k id) ∧ ∀ x ∈ (s.supersede k).active, x.key ≠ k := by
  unfold Reconstruction.supersede
  cases hk : s.active.get? k with
  | none =>
    rw [h.release_of_none hk]
    exact ⟨h, by simpa [Entries.get?] using hk⟩
  | some c =>
    exact ⟨h.release_of_some hk id _, fun x hx => by simpa using (List.mem_filter.1 hx).2⟩

theorem insert (h : s.Holds l) {c : Connection} (hc : ∀ x ∈ s.active, x.key ≠ c.key) :
    (s.insert c.key c).Holds (l.start c) where
  sound := h.sound.append hc
  active := by rw [Ledger.start, ← h.active]; exact Entries.inOrder_append h.sound hc
  terminated := h.terminated

theorem onBegin (h : s.Holds l) (b : Base) (p : Ports) :
    (s.onBegin b p).Holds ((l.release (b.key p) id).start (.start b p)) := by
  obtain ⟨hrelease, hfresh⟩ := h.supersede (b.key p)
  exact hrelease.insert (c := .start b p) hfresh

theorem onData (h : s.Holds l) (p : Packet) :
    (s.onData p).Holds (l.record (p.base.key p.ports) p) := by
  unfold Reconstruction.onData
  dsimp only
  cases hk : s.active.get? (p.base.key p.ports) with
  | none =>
    have hsame : ∀ c ∈ l.active, (if c.key = p.base.key p.ports then c.record p else c) = c := by
      have hnone := h.filter_key (p.base.key p.ports)
      rw [hk] at hnone
      intro c hc
      exact if_neg (by simpa using List.filter_eq_nil_iff.1 hnone c hc)
    refine ⟨h.sound, ?_, h.terminated⟩
    rw [Ledger.record, List.map_congr_left hsame, List.map_id']
    exact h.active
  | some c =>
    refine ⟨h.sound.modify _ fun c => c.record_key p, ?_, h.terminated⟩
    change (s.active.modify (p.base.key p.ports) (·.record p)).inOrder = _
    rw [Ledger.record, ← h.active, Entries.inOrder_modify h.sound]

theorem onEnd (h : s.Holds l) (b : Base) (p : Ports) (closing : Closing) :
    (s.onEnd b p closing).Holds (l.release (b.key p) (·.finish b closing)) := by
  unfold Reconstruction.onEnd
  cases hk : s.active.get? (b.key p) with
  | none =>
    rw [h.release_of_none hk]
    exact ⟨h.sound, h.active, h.terminated⟩
  | some c => exact h.release_of_some hk (·.finish b closing) _

theorem handle (h : s.Holds l) (e : Event) : (s.handle e).Holds (l.step e) := by
  obtain ⟨b, d⟩ := e
  cases d with
  | tcpBegin p => exact h.onBegin b p
  | tcpData p payload => exact h.onData ⟨b, p, payload⟩
  | tcpEnd p closing => exact h.onEnd b p closing
  | _ => exact h

/-- One event: out of focus nothing happens, in focus the ledger takes its step. -/
theorem process (h : s.Holds l) (e : Event) :
    (s.process e).Holds (if inFocus s.focus e.base then l.step e else l) := by
  have hstats (stats : Stats) : Holds { s with stats := stats } l :=
    ⟨h.sound, h.active, h.terminated⟩
  unfold Reconstruction.process
  dsimp only
  split
  · exact (hstats _).handle e
  · exact hstats _

theorem assemble_eq (h : s.Holds l) : assemble s.active s.terminated = l.connections := by
  rw [assemble, h.active, h.terminated, Ledger.connections]

end Holds

@[simp] theorem handle_focus (s : Reconstruction) (e : Event) : (s.handle e).focus = s.focus := by
  unfold handle onBegin onData onEnd supersede
  dsimp only
  (repeat' split) <;> rfl

@[simp] theorem process_focus (s : Reconstruction) (e : Event) :
    (s.process e).focus = s.focus := by
  unfold process
  dsimp only
  split
  · exact handle_focus _ e
  · rfl

end Reconstruction

namespace Reached

open Reconstruction

variable {focus : String} {es : List Event} {s : Reconstruction}

theorem focus_eq (h : Reached focus es s) : s.focus = focus := by
  induction h with
  | new => rfl
  | process e _ ih => exact (process_focus _ e).trans ih
  | reorder _ _ ih => exact ih

theorem inFocus_eq_touches {e : Event} {k : ConnectionKey} (hk : k ∈ e.key?) :
    inFocus focus e.base = k.touches focus := by
  obtain ⟨b, d⟩ := e
  cases d <;> simp only [Event.key?, Option.mem_def, Option.some.injEq, reduceCtorEq] at hk
  all_goals rw [← hk, ConnectionKey.touches_key]

/-- The events out of focus are those that the restricted ledger passes over. -/
theorem holds (h : Reached focus es s) :
    s.Holds ((Ledger.ofEvents es).restrict (ConnectionKey.touches focus)) := by
  induction h with
  | new =>
    have hnone : Entries.inOrder [] = [] := by simp [Entries.inOrder]
    exact ⟨.nil, hnone, rfl⟩
  | process e hs ih =>
    rw [Ledger.ofEvents_append, Ledger.restrict_step _ _ e fun _ => inFocus_eq_touches, ← hs.focus_eq]
    exact hs.focus_eq ▸ ih.process e
  | reorder _ hx ih => exact ih.reorder hx

theorem snapshot_eq (h : Reached focus es s) :
    s.snapshot = (Ledger.ofEvents es).connections.filter (·.key.touches focus) := by
  rw [snapshot, h.holds.assemble_eq, Ledger.connections_restrict]

theorem finish_eq (h : Reached focus es s) :
    s.finish = (Ledger.ofEvents es).connections.filter (·.key.touches focus) := by
  rw [finish, h.holds.assemble_eq, Ledger.connections_restrict]

theorem processAll (h : Reached focus es s) (fs : List Event) :
    Reached focus (es ++ fs) (s.processAll fs) := by
  induction fs generalizing es s with
  | nil => simpa using h
  | cons e fs ih => simpa using ih (h.process e)

end Reached

/-- The connections of a focus are those of the whole ledger that have it as an address. -/
theorem reconstruct_eq (es : List Event) (focus : String) :
    reconstruct es focus = (Ledger.ofEvents es).connections.filter (·.key.touches focus) :=
  (Reached.new.processAll es).finish_eq

end FlowLog
