import FlowLog.Proofs.Ledger
import Mathlib.Algebra.Ring.Nat
import Mathlib.Data.List.Basic

/-! The segments of a list of events. Each begin event opens one: the data events of its key up to
the next begin or end of the key, and that event if there is one. A segment tells the whole
connection, and it grows by one event at a time as the list does. -/

namespace FlowLog

def Packet.event (p : Packet) : Event := ⟨p.base, .tcpData p.ports p.payload⟩

namespace Event

def bounds (k : ConnectionKey) (e : Event) : Bool :=
  match e.detail with
  | .tcpBegin p | .tcpEnd p _ => e.base.key p = k
  | _ => false

/-- The packet that the event adds to a connection under the key. -/
def packet? (k : ConnectionKey) (e : Event) : Option Packet :=
  match e.detail with
  | .tcpData p payload => if e.base.key p = k then some ⟨e.base, p, payload⟩ else none
  | _ => none

theorem packet?_eq_some {k : ConnectionKey} {e : Event} {p : Packet} :
    e.packet? k = some p ↔ p.event = e ∧ p.base.key p.ports = k := by
  obtain ⟨b, d⟩ := e
  obtain ⟨b', q, n⟩ := p
  cases d with
  | tcpData =>
    simp only [packet?, Packet.event, Option.ite_none_right_eq_some, Option.some.injEq,
      Packet.mk.injEq, Event.mk.injEq, Detail.tcpData.injEq]
    constructor
    · rintro ⟨hkey, rfl, rfl, rfl⟩
      exact ⟨⟨rfl, rfl, rfl⟩, hkey⟩
    · rintro ⟨⟨rfl, rfl, rfl⟩, hkey⟩
      exact ⟨hkey, rfl, rfl, rfl⟩
  | _ => simp [packet?, Packet.event]

theorem packet?_of_bounds {k : ConnectionKey} {e : Event} (h : e.bounds k) : e.packet? k = none := by
  obtain ⟨b, d⟩ := e
  cases d with
  | tcpData => simp [bounds] at h
  | _ => rfl

/-- What the event makes of an open connection that it does not close. -/
def extend (e : Event) (c : Connection) : Connection :=
  match e.packet? c.key with
  | some p => c.record p
  | none => c

def close (e : Event) (c : Connection) : Connection :=
  match e.detail with
  | .tcpEnd _ closing => c.finish e.base closing
  | _ => c

def opens (e : Event) : List Connection :=
  match e.detail with
  | .tcpBegin p => [.start e.base p]
  | _ => []

end Event

/-- The sum of the payloads, or the greatest number if that is less. -/
def Packet.total (ps : List Packet) : UInt64 :=
  (min (UInt64.size - 1) (ps.map fun p : Packet => p.payload.toNat).sum).toUInt64

theorem Packet.total_toNat (ps : List Packet) :
    (total ps).toNat = min (UInt64.size - 1) (ps.map fun p : Packet => p.payload.toNat).sum := by
  simp only [total, Nat.toUInt64_eq, UInt64.toNat_ofNat', UInt64.size]
  omega

theorem Packet.total_append (ps : List Packet) (p : Packet) :
    total (ps ++ [p]) = addSaturating (total ps) p.payload := by
  apply UInt64.toNat_inj.1
  rw [addSaturating_toNat, total_toNat, total_toNat, List.map_append, List.sum_append,
    List.map_singleton, List.sum_singleton]
  simp only [UInt64.size]
  omega

/-- A begin event at the position `start`, the packets that followed, and the event that closed the
segment with its own position. -/
structure Segment where
  start : Nat
  base : Base
  ports : Ports
  packets : List Packet
  stop : Option (Event × Nat)
  deriving DecidableEq, Repr

namespace Segment

/-- The segment of a begin event with the events after it. -/
def ofBegin (start : Nat) (b : Base) (p : Ports) (rest : List Event) : Segment where
  start := start
  base := b
  ports := p
  packets := (rest.takeWhile fun e => !e.bounds (b.key p)).filterMap (Event.packet? (b.key p))
  stop := (rest.zipIdx (start + 1)).find? fun x => x.1.bounds (b.key p)

def key (g : Segment) : ConnectionKey := g.base.key g.ports

def isClosed (g : Segment) : Bool := g.stop.isSome

/-- Time and report of the end event, if such an event closed the segment. -/
def ending (g : Segment) : Option (Timestamp × Closing) :=
  match g.stop with
  | some (⟨b, .tcpEnd _ closing⟩, _) => some (b.time, closing)
  | _ => none

def connection (g : Segment) : Connection where
  client := g.base.sender g.ports
  clientHost := g.base.sourceHost
  server := g.base.receiver g.ports
  serverHost := g.base.destinationHost
  opened := g.base.time
  closed := g.ending.map fun x => x.1
  lastPacket := match g.ending, g.packets.getLast? with
    | some x, _ => x.1
    | none, some p => p.base.time
    | none, none => g.base.time
  clientPayload := Packet.total (g.packets.filter fun p => p.base.sender p.ports = g.base.sender g.ports)
  serverPayload := Packet.total (g.packets.filter fun p => p.base.sender p.ports ≠ g.base.sender g.ports)
  transferredClient := (g.ending.map fun x => x.2.client).getD 0
  transferredServer := (g.ending.map fun x => x.2.server).getD 0
  packets := g.packets

@[simp] theorem connection_key (g : Segment) : g.connection.key = g.key := rfl

/-- The segment after one more event, at the position `n`. -/
def see (n : Nat) (e : Event) (g : Segment) : Segment :=
  if g.isClosed then g
  else if e.bounds g.key then { g with stop := some (e, n) }
  else { g with packets := g.packets ++ (e.packet? g.key).toList }

end Segment

/-- The segments of all begin events, the first event being at the position `n`. -/
def segmentsFrom (n : Nat) : List Event → List Segment
  | [] => []
  | e :: es =>
    match e.detail with
    | .tcpBegin p => .ofBegin n e.base p es :: segmentsFrom (n + 1) es
    | _ => segmentsFrom (n + 1) es

def segments (es : List Event) : List Segment := segmentsFrom 0 es

/-- The packets of a segment come from the events behind its begin event. -/
theorem exists_rest_of_mem_segmentsFrom {n : Nat} {es : List Event} {g : Segment}
    (h : g ∈ segmentsFrom n es) : ∃ rest : List Event, rest.Sublist es ∧
      g.packets = (rest.takeWhile fun e => !e.bounds g.key).filterMap (Event.packet? g.key) := by
  induction es generalizing n with
  | nil => cases h
  | cons e es ih =>
    have hlater (h : g ∈ segmentsFrom (n + 1) es) :=
      (ih h).imp fun _ => And.imp_left (·.trans (List.sublist_cons_self e es))
    obtain ⟨b, d⟩ := e
    cases d with
    | tcpBegin p =>
      rcases List.mem_cons.1 h with rfl | h
      · exact ⟨es, List.sublist_cons_self _ es, rfl⟩
      · exact hlater h
    | _ => exact hlater h

namespace Segment

section
variable (k : ConnectionKey) (rest : List Event) (e : Event) (n : Nat)

theorem packets_append :
    ((rest ++ [e]).takeWhile fun e => !e.bounds k).filterMap (Event.packet? k) =
      (rest.takeWhile fun e => !e.bounds k).filterMap (Event.packet? k) ++
        if rest.any (Event.bounds k) then [] else (e.packet? k).toList := by
  induction rest with
  | nil =>
    by_cases he : e.bounds k
    · simp [he, Event.packet?_of_bounds he]
    · cases hp : e.packet? k <;> simp [he, hp]
  | cons a rest ih =>
    by_cases ha : a.bounds k
    · simp [ha]
    · cases hp : a.packet? k <;> simp [ha, hp, ih]

theorem stop_append :
    ((rest ++ [e]).zipIdx n).find? (fun x => x.1.bounds k) =
      if rest.any (Event.bounds k) then (rest.zipIdx n).find? fun x => x.1.bounds k
      else if e.bounds k then some (e, n + rest.length) else none := by
  induction rest generalizing n with
  | nil => by_cases he : e.bounds k <;> simp [he]
  | cons a rest ih =>
    by_cases ha : a.bounds k
    · simp [ha]
    · simp only [List.cons_append, List.zipIdx_cons, List.find?_cons, ha, ih, List.any_cons,
        Bool.false_or, List.length_cons, Nat.add_comm rest.length 1, Nat.add_assoc]

theorem stop_isSome :
    ((rest.zipIdx n).find? fun x => x.1.bounds k).isSome = rest.any (Event.bounds k) := by
  induction rest generalizing n with
  | nil => rfl
  | cons a rest ih => by_cases ha : a.bounds k <;> simp [ha, ih]

end

theorem ofBegin_append (n : Nat) (b : Base) (p : Ports) (rest : List Event) (e : Event) :
    ofBegin n b p (rest ++ [e]) = (ofBegin n b p rest).see (n + 1 + rest.length) e := by
  have hsome : (ofBegin n b p rest).isClosed = rest.any (Event.bounds (b.key p)) :=
    stop_isSome (b.key p) rest (n + 1)
  rw [see, hsome, ofBegin, packets_append, stop_append]
  cases hany : rest.any (Event.bounds (b.key p)) with
  | true => simp [ofBegin]
  | false =>
    have hnone : (ofBegin n b p rest).stop = none := by simpa [isClosed, hany] using hsome
    by_cases he : e.bounds (b.key p)
    · simp [ofBegin, key, he, Event.packet?_of_bounds he]
    · rw [if_neg Bool.false_ne_true, if_neg Bool.false_ne_true]
      simp only [ofBegin, key, he, Bool.false_eq_true, if_false, Segment.mk.injEq, true_and]
      exact hnone.symm

/-! One more event closes an open segment, adds a packet to it or passes it by, and its connection
is finished, kept or extended accordingly. -/

theorem see_closed {g : Segment} (hg : g.isClosed) (n : Nat) (e : Event) : g.see n e = g := if_pos hg

theorem see_isClosed (g : Segment) (n : Nat) (e : Event) :
    (g.see n e).isClosed = (g.isClosed || e.bounds g.key) := by
  unfold see
  cases hg : g.isClosed with
  | true => simp [hg]
  | false =>
    cases he : e.bounds g.key with
    | true => simp [isClosed]
    | false => simpa [isClosed] using hg

section
variable {g : Segment} (hg : g.isClosed = false) (n : Nat) {e : Event}
include hg

theorem see_of_bounds (he : e.bounds g.key) : g.see n e = { g with stop := some (e, n) } := by
  simp [see, hg, he]

theorem connection_of_bounds (he : e.bounds g.key) :
    (g.see n e).connection = e.close g.connection := by
  rw [see_of_bounds hg n he]
  have hstop : g.stop = none := by simpa [isClosed] using hg
  obtain ⟨b, d⟩ := e
  cases d with
  | tcpBegin p => simp [connection, ending, hstop, Event.close]
  | tcpEnd p closing => simp [connection, ending, Event.close, Connection.finish]
  | _ => simp [Event.bounds] at he

theorem connection_append (p : Packet) :
    { g with packets := g.packets ++ [p] }.connection = g.connection.record p := by
  have hstop : g.stop = none := by simpa [isClosed] using hg
  have hending : g.ending = none := by simp [ending, hstop]
  have hending' : { g with packets := g.packets ++ [p] }.ending = none := by simp [ending, hstop]
  unfold Connection.record Connection.direction
  by_cases hp : p.base.sender p.ports = g.base.sender g.ports <;>
    simp [connection, hending, hending', hp, Packet.total_append]

theorem connection_of_not_bounds (he : e.bounds g.key = false) :
    (g.see n e).connection = e.extend g.connection := by
  have hsee : g.see n e = { g with packets := g.packets ++ (e.packet? g.key).toList } := by
    simp [see, hg, he]
  rw [hsee, Event.extend, connection_key]
  cases e.packet? g.key with
  | none => simp
  | some p => exact connection_append hg p

end

end Segment

theorem segmentsFrom_append (n : Nat) (es : List Event) (e : Event) :
    segmentsFrom n (es ++ [e]) =
      (segmentsFrom n es).map (Segment.see (n + es.length) e) ++ segmentsFrom (n + es.length) [e] := by
  induction es generalizing n with
  | nil => rfl
  | cons e' es ih =>
    have hn : n + (e' :: es).length = n + 1 + es.length := by
      rw [List.length_cons]
      omega
    obtain ⟨b, d⟩ := e'
    cases d with
    | tcpBegin p =>
      simp only [List.cons_append, segmentsFrom, List.map_cons, ih, hn, Segment.ofBegin_append]
    | _ => simpa only [List.cons_append, segmentsFrom, hn] using ih (n + 1)

end FlowLog
