import FlowLog.Connection.Report
import FlowLog.Proofs.Balance
import FlowLog.Proofs.Keys
import Mathlib.Data.Sym.Sym2

/-! What is reported of a connection is one account of its packets. A connection takes only packets
that pass between its own two endpoints, and neither endpoint changes; so the direction of a packet
is the same when it is counted and when it is listed, and rows, totals, series and summary agree. -/

namespace FlowLog

open Reconstruction

theorem Direction.text_eq_toServer {d : Direction} : d.text = toServer.text ↔ d = toServer := by
  cases d <;> decide

theorem Reached.exists_segment {focus : String} {es : List Event} {s : Reconstruction}
    (h : Reached focus es s) {c : Connection} (hc : c ∈ s.connections) :
    ∃ g ∈ segments es, g.connection = c := by
  have hmem : c ∈ s.snapshot := s.snapshot_perm.mem_iff.2 hc
  rw [h.snapshot_eq] at hmem
  obtain ⟨gs, hperm, -, heq⟩ := exists_arrangement es
  rw [heq] at hmem
  obtain ⟨g, hg, rfl⟩ := List.mem_map.1 (List.mem_of_mem_filter hmem)
  exact ⟨g, hperm.mem_iff.1 hg, rfl⟩

namespace Segment

variable {es : List Event} {g : Segment}

theorem packets_sublist (hg : g ∈ segments es) : (g.packets.map Packet.event).Sublist es := by
  have hevents (k : ConnectionKey) (fs : List Event) :
      ((fs.filterMap (Event.packet? k)).map Packet.event).Sublist fs := by
    induction fs with
    | nil => exact .slnil
    | cons e fs ih =>
      cases he : e.packet? k with
      | none => simpa [he] using ih.cons e
      | some p => simpa [he, (Event.packet?_eq_some.1 he).1] using ih.cons_cons e
  obtain ⟨rest, hrest, hpackets⟩ := exists_rest_of_mem_segmentsFrom hg
  rw [hpackets]
  exact (hevents g.key _).trans ((List.takeWhile_sublist _).trans hrest)

theorem packets_key (hg : g ∈ segments es) : ∀ p ∈ g.packets, p.base.key p.ports = g.key := by
  obtain ⟨rest, -, hpackets⟩ := exists_rest_of_mem_segmentsFrom hg
  intro p hp
  rw [hpackets] at hp
  obtain ⟨e, -, he⟩ := List.mem_filterMap.1 hp
  exact (Event.packet?_eq_some.1 he).2

end Segment

namespace Connection

theorem direction_eq_toServer {c : Connection} {p : Packet} :
    c.direction p = .toServer ↔ p.base.sender p.ports = c.client := by
  simp [direction]

def points (c : Connection) (d : Direction) : List (Int × UInt64) :=
  ((c.packets.zip c.rows).filter fun x => x.2.direction = d).map fun x =>
    (x.1.base.time.micros, x.2.payload)

/-- The sum of the payloads of the rows that pass the test, at most the greatest number. -/
def rowTotal (c : Connection) (test : Row → Bool) : Nat :=
  min (UInt64.size - 1) ((c.rows.filter test).map fun r => r.payload.toNat).sum

/-- The reports of a connection agree on its packets, which arrived in this order. -/
structure ReportsAgree (c : Connection) (es : List Event) : Prop where
  arrived : (c.packets.map Packet.event).Sublist es
  parties : ∀ p ∈ c.packets,
    s(p.base.sender p.ports, p.base.receiver p.ports) = s(c.client, c.server)
  rows : List.Forall₂ (fun p r => r.timestamp = p.base.time.text ∧ r.payload = p.payload ∧
    (r.direction.text = "Client -> Server" ↔ p.base.sender p.ports = c.client)) c.packets c.rows
  clientPayload : c.clientPayload.toNat = c.rowTotal fun r => r.direction.text = "Client -> Server"
  serverPayload : c.serverPayload.toNat = c.rowTotal fun r => r.direction.text ≠ "Client -> Server"
  points : ∀ d, (c.series d).Perm (c.points d)
  ordered : ∀ d, (c.series d).Pairwise fun a b => a.1 ≤ b.1
  stable : ∀ d t, ((c.series d).filter fun a => a.1 = t) = (c.points d).filter fun a => a.1 = t
  summary : c.summary.get? "payload-events" = some (.ofNat c.rows.length)

theorem points_eq (c : Connection) (d : Direction) :
    c.points d = (c.packets.filter fun p => c.direction p = d).map fun p =>
      (p.base.time.micros, p.payload) := by
  rw [points, rows, ← List.map_prod_left_eq_zip, List.filter_map, List.map_map]
  rfl

theorem rowTotal_eq (c : Connection) (test : Direction → Bool) :
    c.rowTotal (fun r => test r.direction) =
      (Packet.total (c.packets.filter fun p => test (c.direction p))).toNat := by
  rw [Packet.total_toNat, rowTotal, rows, List.filter_map, List.map_map]
  rfl

end Connection

theorem Segment.direction_connection (g : Segment) (p : Packet) :
    (g.connection.direction p).text = "Client -> Server" ↔
      p.base.sender p.ports = g.base.sender g.ports :=
  Direction.text_eq_toServer.trans Connection.direction_eq_toServer

theorem Segment.reportsAgree {es : List Event} {g : Segment} (hg : g ∈ segments es) :
    g.connection.ReportsAgree es where
  arrived := packets_sublist hg
  parties p hp := Sym2.eq_iff.2 (ConnectionKey.of_eq_of_iff.1 (packets_key hg p hp))
  rows := List.forall₂_map_right_iff.2 <| List.forall₂_same.2 fun p _ =>
    ⟨rfl, rfl, g.direction_connection p⟩
  clientPayload := by
    rw [Connection.rowTotal_eq _ fun d => d.text = "Client -> Server"]
    simp only [g.direction_connection]
    rfl
  serverPayload := by
    rw [Connection.rowTotal_eq _ fun d => d.text ≠ "Client -> Server"]
    simp only [ne_eq, g.direction_connection]
    rfl
  points d := by
    rw [Connection.points_eq]
    exact List.mergeSort_perm _ _
  ordered d := StableSort.pairwise_mergeSort Prod.fst _
  stable d t := by
    rw [Connection.points_eq]
    exact StableSort.filter_rank_mergeSort Prod.fst _ t
  summary := by
    simp [Connection.summary, Connection.rows, Json.Value.get?, Json.Members.get?]

/-- In every state that events lead to, whatever is reported of a connection agrees. -/
theorem Reached.reports_agree {focus : String} {es : List Event} {s : Reconstruction}
    (h : Reached focus es s) : ∀ c ∈ s.connections, c.ReportsAgree es := by
  intro c hc
  obtain ⟨g, hg, rfl⟩ := h.exists_segment hc
  exact Segment.reportsAgree hg

/-- Packets from both sides, out of order and at one time, with a total that does not fit. -/
theorem reports_agree_mixed :
    let early : Timestamp := ⟨0, by decide⟩
    let late : Timestamp := ⟨5, by decide⟩
    let base (t : Timestamp) : Base := ⟨1, t, "a", "b", none, none⟩
    let back (t : Timestamp) : Base := ⟨1, t, "b", "a", none, none⟩
    let es : List Event := [⟨base early, .tcpBegin ⟨1000, 80⟩⟩, ⟨base late, .tcpData ⟨1000, 80⟩ 7⟩,
      ⟨back late, .tcpData ⟨80, 1000⟩ 9⟩, ⟨base early, .tcpData ⟨1000, 80⟩ 18446744073709551615⟩,
      ⟨base late, .tcpData ⟨1000, 80⟩ 3⟩]
    let s := (Reconstruction.new "a").processAll es
    Reached "a" es s ∧ ∃ c ∈ s.connections,
      c.points .toServer = [(5, 7), (0, 18446744073709551615), (5, 3)] ∧
      c.clientPayload = 18446744073709551615 ∧ c.serverPayload = 9 ∧ c.ReportsAgree es := by
  intro early late base back es s
  have h : Reached "a" es s := Reached.new.processAll es
  let c : Connection := es.foldl (fun c e => e.extend c) (.start (base early) ⟨1000, 80⟩)
  have hc : c ∈ s.connections := by decide
  exact ⟨h, c, hc, by decide, by decide, by decide, h.reports_agree c hc⟩

end FlowLog
