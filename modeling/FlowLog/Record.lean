import FlowLog.Json.Printer

/-! Raw event records. A record has nineteen fields, each optional and of a fixed shape; which of
them must be present is for the kinds of event to say. As JSON a record is an object of the fields
that are present, in declared order. -/

namespace FlowLog

/-- What a field may hold. -/
inductive Shape
  | u8 | u16 | u64 | text | texts
  deriving DecidableEq, Repr

abbrev Shape.Carrier : Shape → Type
  | u8 => UInt8
  | u16 => UInt16
  | u64 => UInt64
  | text => String
  | texts => List String

inductive Field
  | eventNumber | date | eventType | sourceIp | destinationIp | sourceHostname
  | destinationHostname | icmpType | icmpCode | transferred | sourcePort | destinationPort
  | queryType | domain | responses | payload | creation | transferredClient | transferredServer
  deriving DecidableEq, Repr

namespace Field

def all : List Field :=
  [eventNumber, date, eventType, sourceIp, destinationIp, sourceHostname, destinationHostname,
    icmpType, icmpCode, transferred, sourcePort, destinationPort, queryType, domain, responses,
    payload, creation, transferredClient, transferredServer]

theorem mem_all (f : Field) : f ∈ all := by cases f <;> decide

def name : Field → String
  | eventNumber => "event-number"
  | date => "date"
  | eventType => "event-type"
  | sourceIp => "source-ip"
  | destinationIp => "destination-ip"
  | sourceHostname => "source-hostname"
  | destinationHostname => "destination-hostname"
  | icmpType => "icmp-type"
  | icmpCode => "icmp-code"
  | transferred => "transferred"
  | sourcePort => "source-port"
  | destinationPort => "destination-port"
  | queryType => "query-type"
  | domain => "domain"
  | responses => "responses"
  | payload => "payload"
  | creation => "creation"
  | transferredClient => "transferred-client"
  | transferredServer => "transferred-server"

def ofName? (s : String) : Option Field := all.find? (·.name == s)

abbrev shape : Field → Shape
  | icmpType | icmpCode => .u8
  | sourcePort | destinationPort | queryType => .u16
  | eventNumber | transferred | payload | transferredClient | transferredServer => .u64
  | responses => .texts
  | _ => .text

abbrev Carrier (f : Field) : Type := f.shape.Carrier

end Field

structure Record where
  get : (f : Field) → Option f.Carrier

namespace Record

@[ext] theorem ext {r s : Record} (h : ∀ f, r.get f = s.get f) : r = s := by
  cases r
  cases s
  exact congrArg mk (funext h)

def empty : Record := ⟨fun _ => none⟩

def put (r : Record) (f : Field) (x : Option f.Carrier) : Record :=
  ⟨fun g => if h : f = g then h ▸ x else r.get g⟩

@[simp] theorem empty_get (f : Field) : empty.get f = none := rfl

@[simp] theorem put_get_self (r : Record) (f : Field) (x : Option f.Carrier) :
    (r.put f x).get f = x := by simp [put]

@[simp] theorem put_get_ne (r : Record) {f g : Field} (x : Option f.Carrier) (h : f ≠ g) :
    (r.put f x).get g = r.get g := by simp [put, h]

def set (r : Record) (f : Field) (x : f.Carrier) : Record := r.put f (some x)

def has (r : Record) (f : Field) : Bool := (r.get f).isSome

/-- Whether the field of that name is present; other names are never. -/
def hasName (r : Record) : String → Bool
  | "event-number" => r.has .eventNumber
  | "date" => r.has .date
  | "event-type" => r.has .eventType
  | "source-ip" => r.has .sourceIp
  | "destination-ip" => r.has .destinationIp
  | "source-hostname" => r.has .sourceHostname
  | "destination-hostname" => r.has .destinationHostname
  | "icmp-type" => r.has .icmpType
  | "icmp-code" => r.has .icmpCode
  | "transferred" => r.has .transferred
  | "source-port" => r.has .sourcePort
  | "destination-port" => r.has .destinationPort
  | "query-type" => r.has .queryType
  | "domain" => r.has .domain
  | "responses" => r.has .responses
  | "payload" => r.has .payload
  | "creation" => r.has .creation
  | "transferred-client" => r.has .transferredClient
  | "transferred-server" => r.has .transferredServer
  | _ => false

@[simp] theorem hasName_name (r : Record) (f : Field) : r.hasName f.name = r.has f := by
  cases f <;> rfl

/-- The first of the fields that is absent, looked up by their names. -/
def firstAbsent (r : Record) (fs : List Field) : Option Field :=
  fs.find? fun f => !r.hasName f.name

theorem firstAbsent_eq (r : Record) (fs : List Field) :
    r.firstAbsent fs = fs.find? fun f => !r.has f := by
  simp only [firstAbsent, hasName_name]

end Record

def Shape.encode : (s : Shape) → s.Carrier → Json.Value
  | u8, n => .ofNat n.toNat
  | u16, n => .ofNat n.toNat
  | u64, n => .ofNat n.toNat
  | text, s => .string s
  | texts, xs => .strings xs

def Record.toValue (r : Record) : Json.Value :=
  .object (Field.all.filterMap fun f => (r.get f).map fun x => (f.name, f.shape.encode x))

def Record.text (r : Record) : String := r.toValue.compactText

end FlowLog
