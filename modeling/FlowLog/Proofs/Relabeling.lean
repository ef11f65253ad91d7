import FlowLog.Proofs.Independence
import FlowLog.Proofs.Keys
import Mathlib.Logic.Equiv.Basic

/-! Other names for the addresses and other numbers for the events. A renaming may turn around the
order of two addresses and with it the two halves of a key, but a key stands for its pair of
endpoints in either order. So long as different addresses stay different, the ledger takes the same
steps, and the reconstruction of the renamed events is the renamed reconstruction. -/

namespace FlowLog

/-! Addresses go through `r` and event numbers through `ν`. -/

section
variable (r : String → String) (ν : UInt64 → UInt64)

def Endpoint.relabel (a : Endpoint) : Endpoint := { a with address := r a.address }

def Base.relabel (b : Base) : Base :=
  { b with number := ν b.number, source := r b.source, destination := r b.destination }

def Event.relabel (e : Event) : Event := { e with base := e.base.relabel r ν }

def Packet.relabel (p : Packet) : Packet := { p with base := p.base.relabel r ν }

def Connection.relabel (c : Connection) : Connection :=
  { c with
    client := c.client.relabel r
    server := c.server.relabel r
    packets := c.packets.map (Packet.relabel r ν) }

def Ledger.relabel (l : Ledger) : Ledger where
  active := l.active.map (Connection.relabel r ν)
  terminated := l.terminated.map (Connection.relabel r ν)

end

section
variable {r : String → String} (hr : Function.Injective r) (ν : UInt64 → UInt64)
include hr

theorem Endpoint.relabel_inj {a b : Endpoint} : a.relabel r = b.relabel r ↔ a = b := by
  cases a
  cases b
  simp [relabel, hr.eq_iff]

/-- Keys of renamed endpoints are equal just when the keys are. -/
theorem ConnectionKey.of_relabel_inj {a b c d : Endpoint} :
    of (a.relabel r) (b.relabel r) = of (c.relabel r) (d.relabel r) ↔ of a b = of c d := by
  simp only [of_eq_of_iff, Endpoint.relabel_inj hr]

namespace Connection

theorem relabel_key_eq (c : Connection) (b : Base) (p : Ports) :
    (c.relabel r ν).key = (b.relabel r ν).key p ↔ c.key = b.key p :=
  ConnectionKey.of_relabel_inj hr (a := c.client) (b := c.server) (c := b.sender p)
    (d := b.receiver p)

theorem direction_relabel (c : Connection) (p : Packet) :
    (c.relabel r ν).direction (p.relabel r ν) = c.direction p := by
  have hsender : (p.relabel r ν).base.sender p.ports = (c.relabel r ν).client ↔
      p.base.sender p.ports = c.client :=
    Endpoint.relabel_inj hr (a := p.base.sender p.ports) (b := c.client)
  exact if_congr hsender rfl rfl

theorem record_relabel (c : Connection) (p : Packet) :
    (c.relabel r ν).record (p.relabel r ν) = (c.record p).relabel r ν := by
  unfold record
  rw [direction_relabel hr]
  cases c.direction p <;> simp [relabel, Packet.relabel, Base.relabel]

theorem touches_relabel (c : Connection) (f : String) :
    (c.relabel r ν).key.touches (r f) = c.key.touches f := by
  simp [key_touches, relabel, Endpoint.relabel, hr.eq_iff]

end Connection

namespace Ledger

variable (l : Ledger) (b : Base) (p : Ports)

theorem release_relabel {last last' : Connection → Connection}
    (hlast : ∀ c : Connection, last' (c.relabel r ν) = (last c).relabel r ν) :
    (l.relabel r ν).release ((b.relabel r ν).key p) last' =
      (l.release (b.key p) last).relabel r ν := by
  simp [release, relabel, List.filter_map, Function.comp_def, Connection.relabel_key_eq hr, hlast]

theorem record_relabel (payload : UInt64) :
    (l.relabel r ν).record ((b.relabel r ν).key p) ⟨b.relabel r ν, p, payload⟩ =
      (l.record (b.key p) ⟨b, p, payload⟩).relabel r ν := by
  have hrecord (c : Connection) :
      (if (c.relabel r ν).key = (b.relabel r ν).key p then
        (c.relabel r ν).record ⟨b.relabel r ν, p, payload⟩ else c.relabel r ν) =
        (if c.key = b.key p then c.record ⟨b, p, payload⟩ else c).relabel r ν := by
    by_cases hc : c.key = b.key p
    · rw [if_pos hc, if_pos ((Connection.relabel_key_eq hr ν c b p).2 hc)]
      exact Connection.record_relabel hr ν c ⟨b, p, payload⟩
    · rw [if_neg hc, if_neg (mt (Connection.relabel_key_eq hr ν c b p).1 hc)]
  simp [record, relabel, hrecord]

/-- One event: the renamed ledger takes the renamed step. -/
theorem step_relabel (e : Event) :
    (l.relabel r ν).step (e.relabel r ν) = (l.step e).relabel r ν := by
  obtain ⟨b, d⟩ := e
  cases d with
  | tcpBegin p =>
    show ((l.relabel r ν).release ((b.relabel r ν).key p) id).start (.start (b.relabel r ν) p) = _
    have hrelease : (l.relabel r ν).release ((b.relabel r ν).key p) id =
        (l.release (b.key p) id).relabel r ν := release_relabel hr ν l b p fun _ => rfl
    rw [hrelease]
    simp [step, start, relabel, Connection.relabel, Connection.start, Endpoint.relabel,
      Base.relabel, Base.sender, Base.receiver]
  | tcpData p payload => exact record_relabel hr ν l b p payload
  | tcpEnd p closing => exact release_relabel hr ν l b p fun _ => rfl
  | _ => rfl

theorem ofEvents_relabel (es : List Event) :
    ofEvents (es.map (Event.relabel r ν)) = (ofEvents es).relabel r ν := by
  induction es using List.reverseRecOn with
  | nil => rfl
  | append_singleton es e ih =>
    rw [List.map_append, List.map_singleton, ofEvents_append, ih, step_relabel hr, ofEvents_append]

omit hr in
/-- The order of the connections looks at their times only. -/
theorem connections_relabel : (l.relabel r ν).connections =
    l.connections.map (Connection.relabel r ν) := by
  rw [connections, connections, relabel, ← List.map_append]
  exact Eq.symm (List.map_mergeSort (f := Connection.relabel r ν) fun _ _ _ _ => rfl)

end Ledger

theorem reconstruct_relabel (es : List Event) (focus : String) :
    reconstruct (es.map (Event.relabel r ν)) (r focus) =
      (reconstruct es focus).map (Connection.relabel r ν) := by
  rw [reconstruct_eq, reconstruct_eq, Ledger.ofEvents_relabel hr, Ledger.connections_relabel,
    List.filter_map]
  simp [Function.comp_def, Connection.touches_relabel hr]

/-- Renaming the addresses of events and focus renames the addresses of the connections and changes
nothing else, whatever becomes of the order of the addresses. -/
theorem reconstruct_rename (es : List Event) (focus : String) :
    reconstruct (es.map (Event.relabel r id)) (r focus) =
      (reconstruct es focus).map (Connection.relabel r id) :=
  reconstruct_relabel hr id es focus

end

/-- Two addresses exchanged. Their ports are equal, so the halves of the key change places. -/
theorem reconstruct_rename_swap :
    let r : String → String := Equiv.swap "a" "b"
    let time : Timestamp := ⟨0, by decide⟩
    let base : Base := ⟨1, time, "a", "b", some "host", none⟩
    let back : Base := ⟨2, time, "b", "a", none, some "host"⟩
    let es : List Event :=
      [⟨base, .tcpBegin ⟨80, 80⟩⟩, ⟨back, .tcpData ⟨80, 80⟩ 7⟩, ⟨base, .tcpBegin ⟨80, 80⟩⟩]
    Function.Injective r ∧
    ((base.relabel r id).key ⟨80, 80⟩ ≠
      ⟨(base.sender ⟨80, 80⟩).relabel r, (base.receiver ⟨80, 80⟩).relabel r⟩) ∧
    reconstruct (es.map (Event.relabel r id)) "b" =
      (reconstruct es "a").map (Connection.relabel r id) := by
  intro r time base back es
  have hr : Function.Injective r := (Equiv.swap "a" "b").injective
  have hfocus : r "a" = "b" := Equiv.swap_apply_left "a" "b"
  refine ⟨hr, by decide, ?_⟩
  have h := reconstruct_rename hr es "a"
  rwa [hfocus] at h

end FlowLog
