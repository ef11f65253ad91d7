import FlowLog.Time.Text

/-! Events of a capture. All events have a number, a time and two addresses; the detail tells the
kinds apart. A written event carries one of seven tags: the kinds have one each but for name
queries, whose tag tells a response, known by its list of answers, from a query. -/

namespace FlowLog

structure Base where
  number : UInt64
  time : Timestamp
  source : String
  destination : String
  sourceHost : Option String
  destinationHost : Option String
  deriving DecidableEq, Repr

structure Ports where
  source : UInt16
  destination : UInt16
  deriving DecidableEq, Repr

/-- What the end of a connection reports: when it was created, and the bytes each side sent. -/
structure Closing where
  creation : Timestamp
  client : UInt64
  server : UInt64
  deriving DecidableEq, Repr

inductive Detail
  | icmp (type code : UInt8) (transferred : UInt64)
  | udp (ports : Ports) (transferred : UInt64)
  | dns (ports : Ports) (transferred : UInt64) (queryType : UInt16) (domain : String)
      (responses : Option (List String))
  | tcpBegin (ports : Ports)
  | tcpData (ports : Ports) (payload : UInt64)
  | tcpEnd (ports : Ports) (closing : Closing)
  deriving DecidableEq, Repr

structure Event where
  base : Base
  detail : Detail
  deriving DecidableEq, Repr

inductive Kind
  | icmp | udp | dns | tcpBegin | tcpData | tcpEnd
  deriving DecidableEq, Repr

inductive Tag
  | icmp | udp | dnsQuery | dnsResponse | tcpBegin | tcpData | tcpEnd
  deriving DecidableEq, Repr

namespace Tag

def all : List Tag := [icmp, udp, dnsQuery, dnsResponse, tcpBegin, tcpData, tcpEnd]

theorem mem_all (t : Tag) : t ∈ all := by cases t <;> decide

def text : Tag → String
  | icmp => "icmp"
  | udp => "udp"
  | dnsQuery => "dns-query"
  | dnsResponse => "dns-response"
  | tcpBegin => "begin-tcp-connection"
  | tcpData => "tcp-data"
  | tcpEnd => "end-tcp-connection"

def ofText? (s : String) : Option Tag := all.find? (·.text == s)

def kind : Tag → Kind
  | icmp => .icmp
  | udp => .udp
  | dnsQuery | dnsResponse => .dns
  | tcpBegin => .tcpBegin
  | tcpData => .tcpData
  | tcpEnd => .tcpEnd

end Tag

def Kind.ofTag? (s : String) : Option Kind := (Tag.ofText? s).map Tag.kind

/-- The name under which a kind reports its faults. -/
def Kind.name : Kind → String
  | icmp => "icmp"
  | udp => "udp"
  | dns => "dns"
  | tcpBegin => "begin-tcp-connection"
  | tcpData => "tcp-data"
  | tcpEnd => "end-tcp-connection"

namespace Detail

def kind : Detail → Kind
  | icmp .. => .icmp
  | udp .. => .udp
  | dns .. => .dns
  | tcpBegin .. => .tcpBegin
  | tcpData .. => .tcpData
  | tcpEnd .. => .tcpEnd

def tag : Detail → Tag
  | icmp .. => .icmp
  | udp .. => .udp
  | dns _ _ _ _ none => .dnsQuery
  | dns _ _ _ _ (some _) => .dnsResponse
  | tcpBegin .. => .tcpBegin
  | tcpData .. => .tcpData
  | tcpEnd .. => .tcpEnd

@[simp] theorem tag_kind (d : Detail) : d.tag.kind = d.kind := by
  cases d with
  | dns _ _ _ _ responses => cases responses <;> rfl
  | _ => rfl

def ports? : Detail → Option Ports
  | icmp .. => none
  | udp p _ | dns p _ _ _ _ | tcpBegin p | tcpData p _ | tcpEnd p _ => some p

end Detail

/-- Addition that stays at the greatest number instead of running over it. -/
def addSaturating (a b : UInt64) : UInt64 := (min (UInt64.size - 1) (a.toNat + b.toNat)).toUInt64

@[simp] theorem addSaturating_toNat (a b : UInt64) :
    (addSaturating a b).toNat = min (UInt64.size - 1) (a.toNat + b.toNat) := by
  simp only [addSaturating, Nat.toUInt64_eq, UInt64.toNat_ofNat', UInt64.size]
  omega

/-- The bytes of both sides together. -/
def Closing.transferred (c : Closing) : UInt64 := addSaturating c.client c.server

namespace Event

def time (e : Event) : Timestamp := e.base.time

def kind (e : Event) : Kind := e.detail.kind

def tag (e : Event) : Tag := e.detail.tag

def renumber (e : Event) (n : UInt64) : Event := { e with base := { e.base with number := n } }

end Event

/-- How long a connection lasted that was created at `creation` and ended at `time`, in
microseconds. -/
def Closing.duration (c : Closing) (time : Timestamp) : Int := time.since c.creation

end FlowLog
