import FlowLog.Event.Decode
import FlowLog.Indices
import FlowLog.Reconstruction
import FlowLog.Text.Lines
import FlowLog.Text.Utf8

/-! The store of events read from records, with the indices over them and a count of what became of
the records. A file is one JSON array of records if its first byte that is not blank is an opening
bracket, and otherwise one record a line. Only an array that is no JSON is refused as a whole; any
other record that cannot be read is counted and passed over. -/

namespace FlowLog

/-- Records by outcome; those of an unknown type are counted apart from faulty ones. -/
structure Report where
  parsed : Nat
  skipped : Nat
  unknown : Nat
  deriving DecidableEq, Repr

structure Store where
  events : List Event
  indices : Indices
  ports : ServicePorts
  report : Report
  deriving DecidableEq

def Json.Value.ofBytes? (bs : List UInt8) : Option Json.Value :=
  (Utf8.decode bs).bind Json.Value.read?

namespace Store

def new (ports : ServicePorts) : Store := ⟨[], .empty, ports, ⟨0, 0, 0⟩⟩

def push (s : Store) (e : Event) : Store where
  events := s.events ++ [e]
  indices := s.indices.observe s.ports e
  ports := s.ports
  report := { s.report with parsed := s.report.parsed + 1 }

def skip (s : Store) : Store :=
  { s with report := { s.report with skipped := s.report.skipped + 1 } }

def ignore (s : Store) : Store :=
  { s with report := { s.report with unknown := s.report.unknown + 1 } }

/-- Takes the outcome of reading one record; the event is returned if there is one. -/
def accept (s : Store) : Except EventError Event → Store × Option Event
  | .ok e => (s.push e, some e)
  | .error (.unknownEventType _) => (s.ignore, none)
  | .error _ => (s.skip, none)

def ingest (s : Store) (r : Record) : Store × Option Event := s.accept (Event.parse r)

/-- The tag of an object if it is a text but no known tag. -/
def unknownTag? (v : Json.Value) : Option String :=
  match v.get? Field.eventType.name with
  | some (.string tag) => if (Tag.ofText? tag).isNone then some tag else none
  | _ => none

/-- An unknown tag counts before any fault of the other fields. -/
def ingestValue (s : Store) (v : Json.Value) : Store × Option Event :=
  match unknownTag? v with
  | some tag => s.accept (.error (.unknownEventType tag))
  | none => s.accept (Event.ofValue v)

/-- A line of blanks is no record. -/
def ingestLine (s : Store) (line : List UInt8) : Store × Option Event :=
  let line := Lines.trim line
  if line = [] then (s, none)
  else match Json.Value.ofBytes? line with
    | some v => s.ingestValue v
    | none => (s.skip, none)

def extend (s : Store) (vs : List Json.Value) : Store :=
  vs.foldl (fun s v => (s.ingestValue v).1) s

def extendLines (s : Store) (lines : List (List UInt8)) : Store :=
  lines.foldl (fun s l => (s.ingestLine l).1) s

def load (vs : List Json.Value) : Store := (new .standard).extend vs

def openBracket : UInt8 := 91

def isArray (bs : List UInt8) : Bool := (Lines.trimStart bs).head? = some openBracket

/-- Adds the records of a file. The second part tells whether the file is accepted, which an array
that is no JSON is not. -/
def loadBytes (s : Store) (bs : List UInt8) : Store × Bool :=
  if isArray bs then
    match Json.Value.ofBytes? bs with
    | some (.array vs) => (s.extend vs, true)
    | _ => (s, false)
  else (s.extendLines (Lines.pieces bs), true)

def loadText (s : Store) (t : String) : Store × Bool := s.loadBytes (Utf8.encode t.toList)

/-- The store with the records of a file added, if the file is accepted. -/
def loadBytes? (s : Store) (bs : List UInt8) : Option Store :=
  match s.loadBytes bs with
  | (t, true) => some t
  | (_, false) => none

def reconstruct (s : Store) (focus : String) : List Connection :=
  FlowLog.reconstruct s.events focus

end Store
end FlowLog
