import FlowLog.Connection

/-! Reconstruction of the connections of one address, the focus, from events in order of arrival.
Open connections are known by their endpoints and numbered in the order they were opened; one that
is opened again before its end goes to the terminated ones without an end. Data and ends that meet
no open connection are dropped and counted. -/

namespace FlowLog

structure Stats where
  processed : Nat
  outOfFocus : Nat
  opened : Nat
  superseded : Nat
  closed : Nat
  orphanData : Nat
  orphanEnd : Nat
  deriving DecidableEq, Repr

def Stats.zero : Stats := ⟨0, 0, 0, 0, 0, 0, 0⟩

/-- An open connection; the slot counts the connections opened before it. -/
structure Entry where
  key : ConnectionKey
  slot : Nat
  connection : Connection
  deriving DecidableEq, Repr

/-- The open connections, in no particular order; no two have one key. -/
abbrev Entries := List Entry

namespace Entries

def get? (k : ConnectionKey) (es : Entries) : Option Connection :=
  (es.find? fun e => e.key = k).map Entry.connection

def erase (k : ConnectionKey) (es : Entries) : Entries := es.filter fun e => e.key ≠ k

def modify (k : ConnectionKey) (f : Connection → Connection) (es : Entries) : Entries :=
  es.map fun e => if e.key = k then { e with connection := f e.connection } else e

/-- The open connections in the order they were opened. -/
def inOrder (es : Entries) : List Connection :=
  (es.mergeSort fun a b => a.slot ≤ b.slot).map Entry.connection

end Entries

structure Reconstruction where
  focus : String
  active : Entries
  terminated : List Connection
  nextSlot : Nat
  stats : Stats
  deriving DecidableEq, Repr

namespace Reconstruction

def new (focus : String) : Reconstruction := ⟨focus, [], [], 0, .zero⟩

def inFocus (focus : String) (b : Base) : Bool := b.source == focus || b.destination == focus

/-- Moves a connection that is still open under the key to the terminated ones. -/
def supersede (s : Reconstruction) (k : ConnectionKey) : Reconstruction :=
  match s.active.get? k with
  | none => s
  | some c =>
    { s with
      active := s.active.erase k
      terminated := s.terminated ++ [c]
      stats := { s.stats with superseded := s.stats.superseded + 1 } }

def insert (s : Reconstruction) (k : ConnectionKey) (c : Connection) : Reconstruction :=
  { s with
    active := s.active ++ [⟨k, s.nextSlot, c⟩]
    nextSlot := s.nextSlot + 1
    stats := { s.stats with opened := s.stats.opened + 1 } }

def onBegin (s : Reconstruction) (b : Base) (p : Ports) : Reconstruction :=
  (s.supersede (b.key p)).insert (b.key p) (.start b p)

def onData (s : Reconstruction) (p : Packet) : Reconstruction :=
  let k := p.base.key p.ports
  match s.active.get? k with
  | some _ => { s with active := s.active.modify k (·.record p) }
  | none => { s with stats := { s.stats with orphanData := s.stats.orphanData + 1 } }

def onEnd (s : Reconstruction) (b : Base) (p : Ports) (closing : Closing) : Reconstruction :=
  match s.active.get? (b.key p) with
  | some c =>
    { s with
      active := s.active.erase (b.key p)
      terminated := s.terminated ++ [c.finish b closing]
      stats := { s.stats with closed := s.stats.closed + 1 } }
  | none => { s with stats := { s.stats with orphanEnd := s.stats.orphanEnd + 1 } }

/-- What an event in focus does. -/
def handle (s : Reconstruction) (e : Event) : Reconstruction :=
  match e.detail with
  | .tcpBegin p => s.onBegin e.base p
  | .tcpData p payload => s.onData ⟨e.base, p, payload⟩
  | .tcpEnd p closing => s.onEnd e.base p closing
  | _ => s

def process (s : Reconstruction) (e : Event) : Reconstruction :=
  let s := { s with stats := { s.stats with processed := s.stats.processed + 1 } }
  if inFocus s.focus e.base then s.handle e
  else { s with stats := { s.stats with outOfFocus := s.stats.outOfFocus + 1 } }

def processAll (s : Reconstruction) (es : List Event) : Reconstruction := es.foldl process s

@[simp] theorem processAll_nil (s : Reconstruction) : s.processAll [] = s := rfl
@[simp] theorem processAll_cons (s : Reconstruction) (e : Event) (es : List Event) :
    s.processAll (e :: es) = (s.process e).processAll es := rfl
@[simp] theorem processAll_append (s : Reconstruction) (es fs : List Event) :
    s.processAll (es ++ fs) = (s.processAll es).processAll fs := List.foldl_append

/-- Connections by begin; of those that began together the open ones come first. -/
def assemble (active : Entries) (terminated : List Connection) : List Connection :=
  (active.inOrder ++ terminated).mergeSort fun a b => a.opened ≤ b.opened

/-- The connections so far; more events may follow. -/
def snapshot (s : Reconstruction) : List Connection := assemble s.active s.terminated

/-- The connections at the end, when no more events follow. -/
def finish (s : Reconstruction) : List Connection := assemble s.active s.terminated

end Reconstruction

/-- The connections of the focus in the events. -/
def reconstruct (es : List Event) (focus : String) : List Connection :=
  ((Reconstruction.new focus).processAll es).finish

/-- One independent reconstruction for each focus. -/
def reconstructMany (es : List Event) (focuses : List String) :
    List (String × List Connection) :=
  focuses.map fun f => (f, reconstruct es f)

end FlowLog
