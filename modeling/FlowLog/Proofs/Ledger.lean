import FlowLog.Proofs.StableSort
import FlowLog.Reconstruction
import Mathlib.Data.List.Induction

/-! The ledger of all connections in a list of events, whatever addresses they join. It has no
focus, slots or counters, and what it does with an event depends on the key of the event alone.
So the part of a ledger whose keys pass a test is the ledger of the events whose keys do. -/

namespace FlowLog

/-- The key of a TCP event. -/
def Event.key? (e : Event) : Option ConnectionKey :=
  match e.detail with
  | .tcpBegin p | .tcpData p _ | .tcpEnd p _ => some (e.base.key p)
  | _ => none

namespace ConnectionKey

/-- Whether one of the two endpoints has the address. -/
def touches (f : String) (k : ConnectionKey) : Bool := k.first.address == f || k.second.address == f

theorem touches_of (f : String) (a b : Endpoint) :
    (of a b).touches f = (a.address == f || b.address == f) := by
  unfold of
  split
  · rfl
  · exact Bool.or_comm _ _

@[simp] theorem touches_key (f : String) (b : Base) (p : Ports) :
    (b.key p).touches f = Reconstruction.inFocus f b := touches_of f _ _

end ConnectionKey

/-- The connections still open, in the order they were opened, and the terminated ones, in the
order they were terminated. -/
structure Ledger where
  active : List Connection
  terminated : List Connection
  deriving DecidableEq, Repr

namespace Ledger

def empty : Ledger := ⟨[], []⟩

/-- Terminates what is open under the key, after a last change to it. -/
def release (l : Ledger) (k : ConnectionKey) (last : Connection → Connection) : Ledger where
  active := l.active.filter fun c => c.key ≠ k
  terminated := l.terminated ++ (l.active.filter fun c => c.key = k).map last

def start (l : Ledger) (c : Connection) : Ledger := { l with active := l.active ++ [c] }

def record (l : Ledger) (k : ConnectionKey) (p : Packet) : Ledger :=
  { l with active := l.active.map fun c => if c.key = k then c.record p else c }

def step (l : Ledger) (e : Event) : Ledger :=
  match e.detail with
  | .tcpBegin p => (l.release (e.base.key p) id).start (.start e.base p)
  | .tcpData p payload => l.record (e.base.key p) ⟨e.base, p, payload⟩
  | .tcpEnd p closing => l.release (e.base.key p) (·.finish e.base closing)
  | _ => l

def ofEvents (es : List Event) : Ledger := es.foldl step empty

@[simp] theorem ofEvents_nil : ofEvents [] = empty := rfl
@[simp] theorem ofEvents_append (es : List Event) (e : Event) :
    ofEvents (es ++ [e]) = (ofEvents es).step e := by
  simp [ofEvents]

/-- The connections by begin; of those that began together the open ones come first. -/
def connections (l : Ledger) : List Connection :=
  (l.active ++ l.terminated).mergeSort fun a b => a.opened ≤ b.opened

/-- The part of the ledger whose keys pass the test. -/
def restrict (P : ConnectionKey → Bool) (l : Ledger) : Ledger where
  active := l.active.filter fun c => P c.key
  terminated := l.terminated.filter fun c => P c.key

theorem connections_restrict (P : ConnectionKey → Bool) (l : Ledger) :
    (l.restrict P).connections = l.connections.filter fun c => P c.key := by
  rw [connections, restrict, connections, ← List.filter_append,
    StableSort.filter_mergeSort Connection.opened]

section
variable (P : ConnectionKey → Bool) (l : Ledger) (k : ConnectionKey)

theorem restrict_release (last : Connection → Connection) (hlast : ∀ c, (last c).key = c.key) :
    (l.release k last).restrict P = if P k then (l.restrict P).release k last else l.restrict P := by
  cases hk : P k with
  | true =>
    simp only [release, restrict, List.filter_append, List.filter_map, Function.comp_def, hlast,
      if_true, Ledger.mk.injEq]
    exact ⟨List.filter_comm .., by rw [List.filter_comm]⟩
  | false =>
    have hother : ∀ c : Connection, P c.key → c.key ≠ k := fun c hc he => by simp [he, hk] at hc
    have hactive : (l.active.filter fun c => c.key ≠ k).filter (fun c => P c.key) =
        l.active.filter fun c => P c.key := by
      rw [List.filter_filter]
      exact List.filter_congr fun c _ => by simpa using hother c
    have hnone : (l.active.filter fun c => c.key = k).filter (fun c => P c.key) = [] := by
      rw [List.filter_filter, List.filter_eq_nil_iff]
      intro c _ h
      simp only [Bool.and_eq_true, decide_eq_true_eq] at h
      exact hother c h.1 h.2
    simp only [release, restrict, List.filter_append, List.filter_map, Function.comp_def, hlast,
      hactive, hnone, List.map_nil, List.append_nil, Bool.false_eq_true, if_false]

theorem restrict_start (c : Connection) :
    (l.start c).restrict P = if P c.key then (l.restrict P).start c else l.restrict P := by
  cases hc : P c.key <;> simp [start, restrict, hc]

theorem restrict_record (p : Packet) :
    (l.record k p).restrict P = if P k then (l.restrict P).record k p else l.restrict P := by
  have hkey : ∀ c : Connection, (if c.key = k then c.record p else c).key = c.key := by
    intro c
    split <;> simp
  simp only [record, restrict, List.filter_map, Function.comp_def, hkey]
  cases hk : P k with
  | true => simp
  | false =>
    have hother : ∀ c ∈ l.active.filter fun c => P c.key,
        (if c.key = k then c.record p else c) = c := by
      intro c hc
      have hc : P c.key := (List.mem_filter.1 hc).2
      exact if_neg fun he => by simp [he, hk] at hc
    simp [List.map_congr_left hother]

/-- A ledger passes over the events whose keys it leaves out. An event without a key changes nothing,
so it does not matter whether it is kept. -/
theorem restrict_step (e : Event) {keep : Bool} (hkeep : ∀ k ∈ e.key?, keep = P k) :
    (l.step e).restrict P = if keep then (l.restrict P).step e else l.restrict P := by
  obtain ⟨b, d⟩ := e
  cases d with
  | tcpBegin p =>
    have hrelease := restrict_release P l (b.key p) id fun _ => rfl
    rw [hkeep _ rfl]
    by_cases hk : P (b.key p) <;> simp [step, restrict_start, hrelease, hk]
  | tcpData p payload =>
    rw [hkeep _ rfl]
    exact restrict_record P l _ _
  | tcpEnd p closing =>
    rw [hkeep _ rfl]
    exact restrict_release P l _ _ fun c => c.finish_key b closing
  | _ => exact (ite_self _).symm

end

theorem ofEvents_filter (P : ConnectionKey → Bool) (keep : Event → Bool) (es : List Event)
    (hkeep : ∀ e, ∀ k ∈ e.key?, keep e = P k) :
    ofEvents (es.filter keep) = (ofEvents es).restrict P := by
  induction es using List.reverseRecOn with
  | nil => rfl
  | append_singleton es e ih =>
    rw [List.filter_append, ofEvents_append, restrict_step P _ e (hkeep e), ← ih]
    cases h : keep e <;> simp [h]

end Ledger
end FlowLog
