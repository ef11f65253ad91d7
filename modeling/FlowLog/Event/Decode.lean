import FlowLog.Event
import FlowLog.Record.Decode

/-! Events from records. The tag decides the kind; then the fields that every event needs, the form
of the date, and the fields that the kind needs are checked in this order before anything is built,
so that later only a date or creation that names no instant is refused. -/

namespace FlowLog

/-- Why a record is no event. A missing field is reported under a kind, or none when the kind is
not known yet. -/
inductive EventError
  | invalidTimestamp (s : String)
  | unknownEventType (tag : String)
  | missingField (kind : Option Kind) (field : Field)
  | malformed (cause : Malformed)

namespace EventError

def message : EventError → String
  | invalidTimestamp s => "invalid timestamp: '" ++ s ++ "'"
  | unknownEventType tag => "unknown event type: '" ++ tag ++ "'"
  | missingField kind f =>
    (kind.map Kind.name).getD "event" ++ ": missing required field '" ++ f.name ++ "'"
  | malformed m => "malformed record: " ++ m.message

end EventError

/-- The fields that every kind of event needs. -/
def Base.required : List Field := [.eventNumber, .date, .eventType, .sourceIp, .destinationIp]

namespace Kind

/-- The fields that a kind needs beyond those of every event. -/
def required : Kind → List Field
  | icmp => [.icmpType, .icmpCode, .transferred]
  | udp => [.sourcePort, .destinationPort, .transferred]
  | dns => [.sourcePort, .destinationPort, .transferred, .queryType, .domain]
  | tcpBegin => [.sourcePort, .destinationPort]
  | tcpData => [.sourcePort, .destinationPort, .payload]
  | tcpEnd => [.sourcePort, .destinationPort, .creation, .transferredClient, .transferredServer]

def ofRecord (r : Record) : Except EventError Kind :=
  match r.get .eventType with
  | none => .error (.missingField none .eventType)
  | some tag =>
    match ofTag? tag with
    | none => .error (.unknownEventType tag)
    | some k => .ok k

def demand (k : Kind) (fs : List Field) (r : Record) : Except EventError Unit :=
  match r.firstAbsent fs with
  | none => .ok ()
  | some f => .error (.missingField (some k) f)

def need (k : Kind) (f : Field) (r : Record) : Except EventError f.Carrier :=
  match r.get f with
  | none => .error (.missingField (some k) f)
  | some x => .ok x

def checkDate (k : Kind) (r : Record) : Except EventError Unit := do
  let date : String ← k.need .date r
  if Timestamp.wellFormed date then .ok () else .error (.invalidTimestamp date)

def check (k : Kind) (r : Record) : Except EventError Unit := do
  k.demand Base.required r
  k.checkDate r
  k.demand k.required r

def isValid (k : Kind) (r : Record) : Bool := (k.check r).isOk

end Kind

def Timestamp.parse (s : String) : Except EventError Timestamp :=
  match parse? s with
  | none => .error (.invalidTimestamp s)
  | some t => .ok t

namespace Kind

def readBase (k : Kind) (r : Record) : Except EventError Base := do
  let date : String ← k.need .date r
  let number ← k.need .eventNumber r
  let time ← Timestamp.parse date
  let source ← k.need .sourceIp r
  let destination ← k.need .destinationIp r
  .ok ⟨number, time, source, destination, r.get .sourceHostname, r.get .destinationHostname⟩

def readPorts (k : Kind) (r : Record) : Except EventError Ports := do
  let source ← k.need .sourcePort r
  let destination ← k.need .destinationPort r
  .ok ⟨source, destination⟩

def readDetail (k : Kind) (r : Record) : Except EventError Detail :=
  match k with
  | icmp => do
    let type ← k.need .icmpType r
    let code ← k.need .icmpCode r
    let transferred ← k.need .transferred r
    .ok (.icmp type code transferred)
  | udp => do
    let ports ← k.readPorts r
    let transferred ← k.need .transferred r
    .ok (.udp ports transferred)
  | dns => do
    let ports ← k.readPorts r
    let transferred ← k.need .transferred r
    let queryType ← k.need .queryType r
    let domain ← k.need .domain r
    .ok (.dns ports transferred queryType domain (r.get .responses))
  | tcpBegin => do
    let ports ← k.readPorts r
    .ok (.tcpBegin ports)
  | tcpData => do
    let ports ← k.readPorts r
    let payload ← k.need .payload r
    .ok (.tcpData ports payload)
  | tcpEnd => do
    let date : String ← k.need .creation r
    let ports ← k.readPorts r
    let creation ← Timestamp.parse date
    let client ← k.need .transferredClient r
    let server ← k.need .transferredServer r
    .ok (.tcpEnd ports ⟨creation, client, server⟩)

/-- The event of a kind that a record describes, whatever its tag. -/
def read (k : Kind) (r : Record) : Except EventError Event := do
  k.check r
  let base ← k.readBase r
  let detail ← k.readDetail r
  .ok ⟨base, detail⟩

end Kind

namespace Event

def parse (r : Record) : Except EventError Event := do (← Kind.ofRecord r).read r

def ofValue (v : Json.Value) : Except EventError Event :=
  match Record.ofValue v with
  | .error m => .error (.malformed m)
  | .ok r => parse r

end Event
end FlowLog
