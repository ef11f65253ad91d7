import FlowLog.Proofs.Growth
import FlowLog.Proofs.Independence

/-! The counters of a reconstruction balance. Every begin in focus opens a connection, which is
open or terminated from then on; every terminated one was closed by an end in focus or superseded by
a begin; and data in focus are kept as packets or dropped. Nothing is lost or counted twice. -/

namespace FlowLog

/-- How many of the events are in focus and of the kind. -/
def tally (focus : String) (k : Kind) (es : List Event) : Nat :=
  es.countP fun e => Reconstruction.inFocus focus e.base ∧ e.kind = k

@[simp] theorem tally_nil (focus : String) (k : Kind) : tally focus k [] = 0 := rfl
@[simp] theorem tally_append (focus : String) (k : Kind) (es fs : List Event) :
    tally focus k (es ++ fs) = tally focus k es + tally focus k fs := List.countP_append

theorem tally_le (focus : String) (k : Kind) (es : List Event) : tally focus k es ≤ es.length :=
  List.countP_le_length

theorem tally_of_inFocus {focus : String} {e : Event} (he : Reconstruction.inFocus focus e.base)
    (k : Kind) : tally focus k [e] = if e.kind = k then 1 else 0 := by
  simp [tally, List.countP_singleton, he]

theorem tally_of_not_inFocus {focus : String} {e : Event}
    (he : ¬Reconstruction.inFocus focus e.base) (k : Kind) : tally focus k [e] = 0 := by
  simp [tally, he]

/-- How many packets the connections have together. -/
def packetCount (cs : List Connection) : Nat := (cs.flatMap Connection.packets).length

@[simp] theorem packetCount_nil : packetCount [] = 0 := rfl
@[simp] theorem packetCount_cons (c : Connection) (cs : List Connection) :
    packetCount (c :: cs) = c.packets.length + packetCount cs := by simp [packetCount]
@[simp] theorem packetCount_append (cs ds : List Connection) :
    packetCount (cs ++ ds) = packetCount cs + packetCount ds := by simp [packetCount]

theorem packetCount_perm {cs ds : List Connection} (h : cs.Perm ds) :
    packetCount cs = packetCount ds := (h.flatMap_right Connection.packets).length_eq

namespace Entries

def connections (xs : Entries) : List Connection := xs.map Entry.connection

variable {xs : Entries} {k : ConnectionKey} {c : Connection}

/-- What is found under a key is one of the connections; the others are left when it is erased. -/
theorem connections_modify_perm (hkeys : (xs.map Entry.key).Nodup) (hk : xs.get? k = some c)
    (f : Connection → Connection) :
    (xs.modify k f).connections.Perm (f c :: (xs.erase k).connections) := by
  obtain ⟨x, hx, rfl⟩ := Option.map_eq_some_iff.1 hk
  have hxk : x.key = k := by simpa using List.find?_some hx
  have hsplit : (x :: xs.erase k).Perm xs := by
    have hall := List.filter_append_perm (fun y : Entry => y.key = k) xs
    rw [filter_key_eq_find hkeys, hx] at hall
    simpa [erase] using hall
  have hrest : (xs.erase k).modify k f = xs.erase k := by
    refine (List.map_congr_left fun y hy => if_neg ?_).trans (List.map_id _)
    simpa using (List.mem_filter.1 hy).2
  have hmodify : (modify k f (x :: xs.erase k)).connections =
      f x.connection :: (xs.erase k).connections := by
    have hcons : modify k f (x :: xs.erase k) =
        { x with connection := f x.connection } :: (xs.erase k).modify k f := by
      simp [modify, hxk]
    rw [hcons, hrest]
    rfl
  rw [← hmodify]
  exact ((hsplit.map _).map Entry.connection).symm

theorem connections_perm (hkeys : (xs.map Entry.key).Nodup) (hk : xs.get? k = some c) :
    xs.connections.Perm (c :: (xs.erase k).connections) := by
  simpa [modify] using connections_modify_perm hkeys hk id

end Entries

namespace Reconstruction

/-- All connections of the state, open or terminated. -/
def connections (s : Reconstruction) : List Connection := s.active.connections ++ s.terminated

theorem insert_perm (s : Reconstruction) (k : ConnectionKey) (c : Connection) :
    (s.insert k c).connections.Perm (c :: s.connections) := by
  have happend : (s.insert k c).active.connections = s.active.connections ++ [c] := List.map_append
  rw [connections, happend, List.append_assoc]
  exact List.perm_middle

/-- Without what is found under a key. -/
theorem connections_perm {s : Reconstruction} (hkeys : (s.active.map Entry.key).Nodup)
    {k : ConnectionKey} {c : Connection} (hk : s.active.get? k = some c) :
    s.connections.Perm (c :: ((s.active.erase k).connections ++ s.terminated)) :=
  (Entries.connections_perm hkeys hk).append_right s.terminated

/-- The counters and the connections agree with the number of begins, data and ends in focus. -/
structure Balanced (s : Reconstruction) (begins data ends : Nat) : Prop where
  opened : s.stats.opened = begins
  kept : begins = s.connections.length
  closed : s.terminated.countP (·.closed.isSome) = s.stats.closed
  superseded : s.terminated.countP (·.closed = none) = s.stats.superseded
  ended : ends = s.stats.closed + s.stats.orphanEnd
  carried : data = s.stats.orphanData + packetCount s.connections

namespace Balanced

variable {s : Reconstruction} {begins data ends : Nat}

theorem new (focus : String) : (new focus).Balanced 0 0 0 := ⟨rfl, rfl, rfl, rfl, rfl, rfl⟩

theorem reorder (h : s.Balanced begins data ends) {xs : Entries} (hx : xs.Perm s.active) :
    Balanced { s with active := xs } begins data ends := by
  have hall : (xs.connections ++ s.terminated).Perm s.connections :=
    (hx.map Entry.connection).append_right s.terminated
  exact { h with
    kept := h.kept.trans hall.length_eq.symm
    carried := by rw [h.carried, ← packetCount_perm hall]; rfl }

section
variable (hkeys : (s.active.map Entry.key).Nodup) {k : ConnectionKey} {c : Connection}
include hkeys

/-- A connection that is terminated is still one of the connections, with the packets it had. -/
theorem release (h : s.Balanced begins data ends) (hk : s.active.get? k = some c) {d : Connection}
    (hd : d.packets = c.packets) :
    let all := (s.active.erase k).connections ++ (s.terminated ++ [d])
    begins = all.length ∧ data = s.stats.orphanData + packetCount all := by
  have hbefore := connections_perm hkeys hk
  have hafter : ((s.active.erase k).connections ++ (s.terminated ++ [d])).Perm
      (d :: ((s.active.erase k).connections ++ s.terminated)) := by
    rw [← List.append_assoc]
    exact List.perm_append_singleton _ _
  constructor
  · rw [h.kept, hbefore.length_eq, hafter.length_eq]
    rfl
  · rw [h.carried, packetCount_perm hbefore, packetCount_perm hafter, packetCount_cons,
      packetCount_cons, hd]

theorem supersede (h : s.Balanced begins data ends)
    (hopen : ∀ x ∈ s.active, x.connection.closed = none) (k : ConnectionKey) :
    (s.supersede k).Balanced begins data ends := by
  unfold Reconstruction.supersede
  cases hk : s.active.get? k with
  | none => exact h
  | some c =>
    have hc : c.closed = none := by
      obtain ⟨x, hx, rfl⟩ := Option.map_eq_some_iff.1 hk
      exact hopen x (List.mem_of_find?_eq_some hx)
    obtain ⟨hkept, hcarried⟩ := h.release hkeys hk rfl
    exact {
      opened := h.opened
      kept := hkept
      closed := by simp [hc, h.closed]
      superseded := by simp [hc, h.superseded]
      ended := h.ended
      carried := hcarried }

end

theorem insert (h : s.Balanced begins data ends) (k : ConnectionKey) {c : Connection}
    (hc : c.packets = []) : (s.insert k c).Balanced (begins + 1) data ends where
  opened := congrArg Nat.succ h.opened
  kept := by
    rw [h.kept, (s.insert_perm k c).length_eq]
    rfl
  closed := h.closed
  superseded := h.superseded
  ended := h.ended
  carried := by
    rw [packetCount_perm (s.insert_perm k c), packetCount_cons, hc, h.carried]
    exact congrArg _ (Nat.zero_add _).symm

section
variable (hkeys : (s.active.map Entry.key).Nodup)
include hkeys

theorem onBegin (h : s.Balanced begins data ends)
    (hopen : ∀ x ∈ s.active, x.connection.closed = none) (b : Base) (p : Ports) :
    (s.onBegin b p).Balanced (begins + 1) data ends :=
  (h.supersede hkeys hopen (b.key p)).insert (b.key p) (Connection.start_packets b p)

theorem onData (h : s.Balanced begins data ends) (p : Packet) :
    (s.onData p).Balanced begins (data + 1) ends := by
  unfold Reconstruction.onData
  dsimp only
  cases hk : s.active.get? (p.base.key p.ports) with
  | none => exact { h with carried := by rw [h.carried, Nat.add_right_comm]; rfl }
  | some c =>
    have hbefore := connections_perm hkeys hk
    have hafter := (Entries.connections_modify_perm hkeys hk (·.record p)).append_right s.terminated
    refine { h with kept := ?_, carried := ?_ }
    · exact h.kept.trans (hbefore.length_eq.trans hafter.length_eq.symm)
    · have hone : packetCount ((s.active.modify (p.base.key p.ports) (·.record p)).connections ++
          s.terminated) = packetCount s.connections + 1 := by
        rw [packetCount_perm hafter, packetCount_perm hbefore]
        simp [Nat.add_right_comm]
      rw [h.carried, Nat.add_assoc]
      exact congrArg (s.stats.orphanData + ·) hone.symm

theorem onEnd (h : s.Balanced begins data ends) (b : Base) (p : Ports) (closing : Closing) :
    (s.onEnd b p closing).Balanced begins data (ends + 1) := by
  unfold Reconstruction.onEnd
  cases hk : s.active.get? (b.key p) with
  | none => exact { h with ended := congrArg Nat.succ h.ended }
  | some c =>
    obtain ⟨hkept, hcarried⟩ := h.release hkeys hk (c.finish_packets b closing)
    have hc : (c.finish b closing).closed = some b.time := rfl
    exact {
      opened := h.opened
      kept := hkept
      closed := by simp [hc, h.closed]
      superseded := by simp [hc, h.superseded]
      ended := by rw [h.ended, Nat.add_right_comm]
      carried := hcarried }

/-- An event in focus adds to the count of its own kind. -/
theorem handle (h : s.Balanced begins data ends)
    (hopen : ∀ x ∈ s.active, x.connection.closed = none) (e : Event) :
    (s.handle e).Balanced (begins + if e.kind = .tcpBegin then 1 else 0)
      (data + if e.kind = .tcpData then 1 else 0) (ends + if e.kind = .tcpEnd then 1 else 0) := by
  obtain ⟨b, d⟩ := e
  cases d with
  | tcpBegin p => exact h.onBegin hkeys hopen b p
  | tcpData p payload => exact h.onData hkeys ⟨b, p, payload⟩
  | tcpEnd p closing => exact h.onEnd hkeys b p closing
  | _ => exact h

theorem process {es : List Event} (h : s.Balanced (tally s.focus .tcpBegin es)
      (tally s.focus .tcpData es) (tally s.focus .tcpEnd es))
    (hopen : ∀ x ∈ s.active, x.connection.closed = none) (e : Event) :
    (s.process e).Balanced (tally s.focus .tcpBegin (es ++ [e]))
      (tally s.focus .tcpData (es ++ [e])) (tally s.focus .tcpEnd (es ++ [e])) := by
  have hseen (n m : Nat) :
      Balanced { s with stats := { s.stats with processed := n, outOfFocus := m } }
        (tally s.focus .tcpBegin es) (tally s.focus .tcpData es) (tally s.focus .tcpEnd es) :=
    ⟨h.opened, h.kept, h.closed, h.superseded, h.ended, h.carried⟩
  by_cases he : inFocus s.focus e.base
  · simp only [tally_append, tally_of_inFocus he, Reconstruction.process, if_pos he]
    refine handle ?_ (hseen (s.stats.processed + 1) s.stats.outOfFocus) hopen e
    exact hkeys
  · simp only [tally_append, tally_of_not_inFocus he, Reconstruction.process, if_neg he]
    exact hseen _ _

end
end Balanced

@[simp] theorem handle_processed (s : Reconstruction) (e : Event) :
    (s.handle e).stats.processed = s.stats.processed := by
  unfold handle onBegin onData onEnd supersede
  dsimp only
  (repeat' split) <;> rfl

@[simp] theorem handle_outOfFocus (s : Reconstruction) (e : Event) :
    (s.handle e).stats.outOfFocus = s.stats.outOfFocus := by
  unfold handle onBegin onData onEnd supersede
  dsimp only
  (repeat' split) <;> rfl

@[simp] theorem process_processed (s : Reconstruction) (e : Event) :
    (s.process e).stats.processed = s.stats.processed + 1 := by
  by_cases he : inFocus s.focus e.base <;> simp [process, he]

@[simp] theorem process_outOfFocus (s : Reconstruction) (e : Event) :
    (s.process e).stats.outOfFocus =
      s.stats.outOfFocus + if inFocus s.focus e.base then 0 else 1 := by
  by_cases he : inFocus s.focus e.base <;> simp [process, he]

end Reconstruction

def Stats.counters (t : Stats) : List Nat :=
  [t.processed, t.outOfFocus, t.opened, t.superseded, t.closed, t.orphanData, t.orphanEnd]

/-- What the counters of a reconstruction mean after some events, and where its connections are. No
counter passes the number of events, so 64 bits hold them as long as they hold that number. -/
structure Accounts (focus : String) (es : List Event) (s : Reconstruction) : Prop where
  processed : s.stats.processed = es.length
  outOfFocus : s.stats.outOfFocus =
    es.countP fun e => e.base.source ≠ focus ∧ e.base.destination ≠ focus
  begins : s.stats.opened = tally focus .tcpBegin es
  opened : s.stats.opened = s.active.length + s.terminated.length
  terminated : s.terminated.length = s.stats.closed + s.stats.superseded
  closed : s.terminated.countP (·.closed.isSome) = s.stats.closed
  superseded : s.terminated.countP (·.closed = none) = s.stats.superseded
  ends : tally focus .tcpEnd es = s.stats.closed + s.stats.orphanEnd
  data : tally focus .tcpData es =
    s.stats.orphanData + (s.connections.flatMap Connection.packets).length
  counters : ∀ n ∈ s.stats.counters, n ≤ es.length
  unclosed : ∀ x ∈ s.active, x.connection.closed = none
  own : ∀ x ∈ s.active, x.key = .of x.connection.client x.connection.server
  focus : ∀ c ∈ s.connections, c.client.address = focus ∨ c.server.address = focus

namespace Reached

open Reconstruction

variable {focus : String} {es : List Event} {s : Reconstruction}

theorem balanced (h : Reached focus es s) :
    s.Balanced (tally focus .tcpBegin es) (tally focus .tcpData es) (tally focus .tcpEnd es) := by
  induction h with
  | new => exact .new focus
  | process e hs ih =>
    rw [← hs.focus_eq] at ih ⊢
    exact ih.process hs.holds.sound.keys hs.active_closed e
  | reorder _ hx ih => exact ih.reorder hx

theorem processed (h : Reached focus es s) : s.stats.processed = es.length := by
  induction h with
  | new => rfl
  | process e _ ih => simp [ih]
  | reorder _ _ ih => exact ih

theorem outOfFocus (h : Reached focus es s) : s.stats.outOfFocus =
    es.countP fun e => e.base.source ≠ focus ∧ e.base.destination ≠ focus := by
  induction h with
  | new => rfl
  | process e hs ih =>
    have hout : inFocus focus e.base = !decide (e.base.source ≠ focus ∧ e.base.destination ≠ focus) := by
      simp [inFocus, Bool.beq_eq_decide_eq]
    rw [process_outOfFocus, ih, hs.focus_eq, hout, List.countP_append, List.countP_singleton]
    cases decide (e.base.source ≠ focus ∧ e.base.destination ≠ focus) <;> rfl
  | reorder _ _ ih => exact ih

theorem connection_focus (h : Reached focus es s) :
    ∀ c ∈ s.connections, c.client.address = focus ∨ c.server.address = focus := by
  intro c hc
  have hmem : c ∈ ((Ledger.ofEvents es).connections.filter (·.key.touches focus)) := by
    rw [← h.snapshot_eq]
    exact s.snapshot_perm.mem_iff.2 hc
  simpa [Connection.key_touches] using (List.mem_filter.1 hmem).2

theorem accounts_balance (h : Reached focus es s) : Accounts focus es s := by
  have hb := h.balanced
  have hkept : s.stats.opened = s.active.length + s.terminated.length := by
    rw [hb.opened, hb.kept]
    simp [connections, Entries.connections]
  have hterminated : s.terminated.length = s.stats.closed + s.stats.superseded := by
    rw [← hb.closed, ← hb.superseded, List.length_eq_countP_add_countP (·.closed.isSome)]
    simp
  have hcounters : ∀ n ∈ s.stats.counters, n ≤ es.length := by
    have hprocessed := h.processed
    have hout := h.outOfFocus.trans_le List.countP_le_length
    have hbegins := tally_le focus .tcpBegin es
    have hdata := tally_le focus .tcpData es
    have hends := tally_le focus .tcpEnd es
    have hopened := hb.opened
    have hended := hb.ended
    have hcarried := hb.carried
    simp only [Stats.counters, List.mem_cons, List.not_mem_nil, or_false]
    rintro n (rfl | rfl | rfl | rfl | rfl | rfl | rfl) <;> omega
  exact {
    processed := h.processed
    outOfFocus := h.outOfFocus
    begins := hb.opened
    opened := hkept
    terminated := hterminated
    closed := hb.closed
    superseded := hb.superseded
    ends := hb.ended
    data := hb.carried
    counters := hcounters
    unclosed := h.active_closed
    own := fun x hx => (h.holds.sound.own x hx).symm
    focus := h.connection_focus }

end Reached

/-- One connection is superseded and one is closed; data and an end come too late, and one event is
of two other addresses. -/
theorem accounts_balance_mixed :
    let base : Base := ⟨1, ⟨0, by decide⟩, "a", "b", none, none⟩
    let back : Base := ⟨2, ⟨5, by decide⟩, "b", "a", none, none⟩
    let other : Base := ⟨3, ⟨6, by decide⟩, "b", "c", none, none⟩
    let es : List Event := [⟨base, .tcpBegin ⟨1000, 80⟩⟩, ⟨back, .tcpData ⟨80, 1000⟩ 7⟩,
      ⟨base, .tcpBegin ⟨1000, 80⟩⟩, ⟨base, .tcpBegin ⟨2000, 80⟩⟩, ⟨other, .tcpBegin ⟨2000, 80⟩⟩,
      ⟨back, .tcpEnd ⟨80, 2000⟩ ⟨back.time, 0, 0⟩⟩, ⟨base, .tcpData ⟨2000, 80⟩ 3⟩,
      ⟨base, .tcpEnd ⟨2000, 80⟩ ⟨back.time, 3, 0⟩⟩]
    let s := (Reconstruction.new "a").processAll es
    Reached "a" es s ∧ s.stats = ⟨8, 1, 3, 1, 1, 1, 1⟩ ∧ Accounts "a" es s := by
  intro base back other es s
  have h : Reached "a" es s := Reached.new.processAll es
  exact ⟨h, by decide, h.accounts_balance⟩

end FlowLog
