import FlowLog.Event
import FlowLog.Record

/-! Records from events. An event is written back with the tag of its detail and the fields of its
kind; all other fields stay absent. -/

namespace FlowLog

def Base.toRecord (b : Base) (tag : Tag) : Record :=
  Record.empty.set .eventNumber b.number
    |>.set .date b.time.text
    |>.set .eventType tag.text
    |>.set .sourceIp b.source
    |>.set .destinationIp b.destination
    |>.put .sourceHostname b.sourceHost
    |>.put .destinationHostname b.destinationHost

def Ports.fill (p : Ports) (r : Record) : Record :=
  (r.set .sourcePort p.source).set .destinationPort p.destination

def Detail.fill (d : Detail) (r : Record) : Record :=
  match d with
  | icmp type code transferred =>
    ((r.set .icmpType type).set .icmpCode code).set .transferred transferred
  | udp ports transferred => (ports.fill r).set .transferred transferred
  | dns ports transferred queryType domain responses =>
    (ports.fill r).set .transferred transferred
      |>.set .queryType queryType
      |>.set .domain domain
      |>.put .responses responses
  | tcpBegin ports => ports.fill r
  | tcpData ports payload => (ports.fill r).set .payload payload
  | tcpEnd ports closing =>
    (ports.fill r).set .creation closing.creation.text
      |>.set .transferredClient closing.client
      |>.set .transferredServer closing.server

namespace Event

def toRecord (e : Event) : Record := e.detail.fill (e.base.toRecord e.tag)

/-- Events as lines of compact JSON, each ended by a line feed. -/
def jsonLines (es : List Event) : List Char :=
  es.flatMap fun e => e.toRecord.toValue.compact ++ ['\n']

end Event
end FlowLog
