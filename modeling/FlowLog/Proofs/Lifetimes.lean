import FlowLog.Proofs.Growth

/-! Lifetimes of the connections in a capture that is in order of time. A connection lives from its
begin to its last packet, and its packets are dated in between. Each event comes no earlier than
anything before it, so whatever it adds to a connection goes last, and what it begins starts after
all that was terminated under the same key. -/

namespace FlowLog

namespace Connection

/-- The times of a connection in the order in which they were noted: of its begin, of its packets as
they arrived, and of its last packet. -/
def times (c : Connection) : List Timestamp :=
  (c.opened :: c.packets.map fun p => p.base.time) ++ [c.lastPacket]

structure Lifetime (c : Connection) : Prop where
  ordered : c.times.Pairwise (· ≤ ·)
  ended : ∀ t ∈ c.closed, t = c.lastPacket

def Before (c d : Connection) : Prop := c.key = d.key → c.lastPacket ≤ d.opened

theorem record_times (c : Connection) (p : Packet) :
    (c.record p).times =
      (c.opened :: (c.packets.map fun p => p.base.time) ++ [p.base.time]) ++ [p.base.time] := by
  unfold record times
  split <;> simp

theorem record_lastPacket (c : Connection) (p : Packet) :
    (c.record p).lastPacket = p.base.time := by
  unfold record
  split <;> rfl

/-- A time that is not before the last packet may stand in its place. -/
theorem pairwise_times {c : Connection} (h : c.times.Pairwise (· ≤ ·)) {t : Timestamp}
    (ht : c.lastPacket ≤ t) :
    (c.opened :: (c.packets.map fun p => p.base.time) ++ [t]).Pairwise (· ≤ ·) := by
  obtain ⟨hfirst, -, hlast⟩ := List.pairwise_append.1 h
  refine List.pairwise_append.2 ⟨hfirst, List.pairwise_singleton _ _, fun u hu v hv => ?_⟩
  rw [List.mem_singleton.1 hv]
  exact (hlast u hu _ List.mem_cons_self).trans ht

namespace Lifetime

variable {c : Connection} {e : Event}

theorem start (b : Base) (p : Ports) : (Connection.start b p).Lifetime where
  ordered := by simp [times, Connection.start]
  ended := by simp [Connection.start]

theorem extend (h : c.Lifetime) (hopen : c.closed = none) (hlast : c.lastPacket ≤ e.time) :
    (e.extend c).Lifetime ∧ (e.extend c).lastPacket ≤ e.time := by
  have hclosed := (extend_closed c e).trans hopen
  unfold Event.extend at hclosed ⊢
  cases hp : e.packet? c.key with
  | none => exact ⟨h, hlast⟩
  | some p =>
    rw [hp] at hclosed
    have htime : p.base.time = e.time := congrArg Event.time (Event.packet?_eq_some.1 hp).1
    refine ⟨⟨?_, fun t ht => ?_⟩, ((record_lastPacket c p).trans htime).le⟩
    · have hfront := pairwise_times h.ordered (htime ▸ hlast)
      rw [record_times]
      refine List.pairwise_append.2 ⟨hfront, List.pairwise_singleton _ _, fun u hu v hv => ?_⟩
      rw [List.mem_singleton.1 hv]
      rcases List.mem_append.1 hu with hu | hu
      · exact (List.pairwise_append.1 hfront).2.2 u hu _ List.mem_cons_self
      · exact (List.mem_singleton.1 hu).le
    · rw [hclosed] at ht
      cases ht

theorem close (h : c.Lifetime) (hlast : c.lastPacket ≤ e.time) :
    (e.close c).Lifetime ∧ (e.close c).lastPacket ≤ e.time := by
  obtain ⟨b, d⟩ := e
  cases d with
  | tcpEnd p closing =>
    refine ⟨⟨pairwise_times h.ordered hlast, fun t ht => ?_⟩, le_rfl⟩
    cases ht
    rfl
  | _ => exact ⟨h, hlast⟩

/-- An event that is no earlier than the last packet leaves an open connection with a lifetime. -/
theorem after (h : c.Lifetime) (hopen : c.closed = none) (hlast : c.lastPacket ≤ e.time) :
    (c.after [e]).Lifetime ∧ (c.after [e]).lastPacket ≤ e.time := by
  rw [Connection.after]
  split
  · exact h.close hlast
  · exact h.extend hopen hlast

end Lifetime
end Connection

namespace Ledger

/-- Up to the moment every connection has lived in order of time, and each was over before any that
stands behind it, terminated ones before open ones, began under the same key. -/
structure Timely (l : Ledger) (now : Timestamp) : Prop where
  lifetimes : ∀ c ∈ l.terminated ++ l.active, c.Lifetime ∧ c.lastPacket ≤ now
  apart : (l.terminated ++ l.active).Pairwise Connection.Before

/-- An event changes the open connections, of which it may put some behind the terminated ones, and
adds those that it opens. -/
theorem exists_step_eq (l : Ledger) (e : Event) : ∃ cs : List Connection, cs.Perm l.active ∧
    (l.step e).terminated ++ (l.step e).active =
      l.terminated ++ cs.map (·.after [e]) ++ e.opens := by
  let gone := l.active.filter fun c => e.bounds c.key
  let kept := l.active.filter fun c => !e.bounds c.key
  have hgone : gone.map e.close = gone.map (·.after [e]) := by
    refine List.map_congr_left fun c hc => ?_
    rw [Connection.after, if_pos (List.mem_filter.1 hc).2]
  have hkept : kept.map e.extend = kept.map (·.after [e]) := by
    refine List.map_congr_left fun c hc => ?_
    have he : e.bounds c.key = false := by simpa using (List.mem_filter.1 hc).2
    simp [Connection.after, he]
  refine ⟨gone ++ kept, List.filter_append_perm _ l.active, ?_⟩
  rw [step_terminated, step_active, hgone, hkept, List.map_append]
  simp only [List.append_assoc]

theorem mem_opens {e : Event} {c : Connection} (h : c ∈ e.opens) :
    c.Lifetime ∧ c.opened = e.time ∧ c.lastPacket = e.time := by
  obtain ⟨b, d⟩ := e
  cases d with
  | tcpBegin p =>
    obtain rfl := List.mem_singleton.1 h
    exact ⟨.start b p, rfl, rfl⟩
  | _ => cases h

namespace Timely

variable {l : Ledger} {now : Timestamp} {e : Event}

theorem mono {later : Timestamp} (h : l.Timely now) (hle : now ≤ later) : l.Timely later where
  lifetimes c hc := ⟨(h.lifetimes c hc).1, (h.lifetimes c hc).2.trans hle⟩
  apart := h.apart

theorem step (h : l.Timely e.time) (hopen : ∀ c ∈ l.active, c.closed = none)
    (hkeys : (l.active.map Connection.key).Nodup) : (l.step e).Timely e.time := by
  obtain ⟨cs, hperm, hall⟩ := exists_step_eq l e
  have hsame (c : Connection) := c.extends_after [e]
  have hactive {c : Connection} (hc : c ∈ cs) : c ∈ l.active := hperm.mem_iff.1 hc
  obtain ⟨hterminated, -, hcross⟩ := List.pairwise_append.1 h.apart
  have hold : ∀ c ∈ l.terminated ++ cs.map (·.after [e]), c.Lifetime ∧ c.lastPacket ≤ e.time := by
    intro c hc
    rcases List.mem_append.1 hc with hc | hc
    · exact h.lifetimes c (List.mem_append_left _ hc)
    · obtain ⟨d, hd, rfl⟩ := List.mem_map.1 hc
      obtain ⟨hd', hlast⟩ := h.lifetimes d (List.mem_append_right _ (hactive hd))
      exact hd'.after (hopen d (hactive hd)) hlast
  refine ⟨fun c hc => ?_, ?_⟩
  · rw [hall] at hc
    rcases List.mem_append.1 hc with hc | hc
    · exact hold c hc
    · obtain ⟨hc, -, hlast⟩ := mem_opens hc
      exact ⟨hc, hlast.le⟩
  · rw [hall]
    refine List.pairwise_append.2 ⟨List.pairwise_append.2 ⟨hterminated, ?_, ?_⟩, ?_, ?_⟩
    -- Open connections have different keys, and keep them.
    · have hdistinct := List.pairwise_map.1 ((hperm.map Connection.key).nodup_iff.2 hkeys)
      refine List.pairwise_map.2 (hdistinct.imp fun hne hkey => absurd ?_ hne)
      rwa [(hsame _).key, (hsame _).key] at hkey
    · intro c hc d' hd' hkey
      obtain ⟨d, hd, rfl⟩ := List.mem_map.1 hd'
      rw [(hsame d).key] at hkey
      rw [(hsame d).opened]
      exact hcross c hc d (hactive hd) hkey
    · unfold Event.opens
      split <;> simp
    · intro c hc d hd _
      rw [(mem_opens hd).2.1]
      exact (hold c hc).2

end Timely

theorem ofEvents_timely {es : List Event} (h : es.Pairwise fun a b => a.time ≤ b.time)
    {now : Timestamp} (hnow : ∀ e ∈ es, e.time ≤ now) : (ofEvents es).Timely now := by
  induction es using List.reverseRecOn generalizing now with
  | nil => exact ⟨by simp [empty], .nil⟩
  | append_singleton es e ih =>
    obtain ⟨hes, -, hlast⟩ := List.pairwise_append.1 h
    have hbefore : (ofEvents es).Timely e.time := ih hes fun x hx => hlast x hx e List.mem_cons_self
    rw [ofEvents_append]
    exact (hbefore.step (ofEvents_closed es) (ofEvents_nodup es)).mono
      (hnow e (List.mem_append_right _ List.mem_cons_self))

end Ledger

/-- In a capture that is in order of time every connection begins, carries its packets and has its
last packet in this order, and its end, if it has one, is then; and of two connections between the
same endpoints one is over before the other begins. -/
theorem reconstruct_lifetimes {es : List Event} (h : es.Pairwise fun a b => a.time ≤ b.time)
    (focus : String) :
    (∀ c ∈ reconstruct es focus, c.Lifetime) ∧
    (reconstruct es focus).Pairwise fun c d =>
      c.key = d.key → c.lastPacket ≤ d.opened ∨ d.lastPacket ≤ c.opened := by
  obtain ⟨now, htimely⟩ : ∃ now, (Ledger.ofEvents es).Timely now := by
    rcases es.eq_nil_or_concat with rfl | ⟨es, e, rfl⟩
    · exact ⟨⟨0, by decide⟩, Ledger.ofEvents_timely h (by simp)⟩
    · rw [List.concat_eq_append] at h ⊢
      refine ⟨e.time, Ledger.ofEvents_timely h fun x hx => ?_⟩
      rcases List.mem_append.1 hx with hx | hx
      · exact (List.pairwise_append.1 h).2.2 x hx e List.mem_cons_self
      · exact (congrArg Event.time (List.mem_singleton.1 hx)).le
  have hperm : (Ledger.ofEvents es).connections.Perm
      ((Ledger.ofEvents es).terminated ++ (Ledger.ofEvents es).active) :=
    (List.mergeSort_perm _ _).trans List.perm_append_comm
  rw [reconstruct_eq]
  refine ⟨fun c hc => (htimely.lifetimes c (hperm.mem_iff.1 (List.mem_of_mem_filter hc))).1, ?_⟩
  -- Which of the two stands first does not matter here, so sorting by begin changes nothing.
  refine List.Pairwise.filter _ ((hperm.pairwise_iff fun hcd hkey => (hcd hkey.symm).symm).2 ?_)
  exact htimely.apart.imp fun hcd hkey => .inl (hcd hkey)

/-- Three connections between the same endpoints: superseded by the next, ended by the server, and
still open. -/
theorem reconstruct_lifetimes_reopened :
    let early : Timestamp := ⟨0, by decide⟩
    let late : Timestamp := ⟨5, by decide⟩
    let base (t : Timestamp) : Base := ⟨1, t, "a", "b", none, none⟩
    let back (t : Timestamp) : Base := ⟨1, t, "b", "a", none, none⟩
    let es : List Event := [⟨base early, .tcpBegin ⟨1000, 80⟩⟩, ⟨base early, .tcpBegin ⟨1000, 80⟩⟩,
      ⟨back early, .tcpData ⟨80, 1000⟩ 7⟩, ⟨base late, .tcpData ⟨1000, 80⟩ 9⟩,
      ⟨back late, .tcpEnd ⟨80, 1000⟩ ⟨early, 0, 9⟩⟩, ⟨base late, .tcpBegin ⟨1000, 80⟩⟩]
    (es.Pairwise fun a b => a.time ≤ b.time) ∧
    ((reconstruct es "b").map fun c => (c.opened.micros, c.lastPacket.micros, c.closed.isSome)) =
      [(0, 0, false), (0, 5, true), (5, 5, false)] ∧
    (∀ c ∈ reconstruct es "b", c.Lifetime) ∧
    (reconstruct es "b").Pairwise fun c d =>
      c.key = d.key → c.lastPacket ≤ d.opened ∨ d.lastPacket ≤ c.opened := by
  intro early late base back es
  have h : es.Pairwise fun a b => a.time ≤ b.time := by decide
  exact ⟨h, by cbv, reconstruct_lifetimes h "b"⟩

end FlowLog
