import FlowLog.Connection.Report
import FlowLog.Event.Line
import FlowLog.Indices
import FlowLog.Ranking
import FlowLog.Text.Shortest

/-! Listings for people: connections, the packets of one, indices and rankings, each under a banner
with a title. -/

namespace FlowLog
namespace Listing

def line (s : String) : String := s ++ "\n"

def rule : String := String.ofList (List.replicate 55 '═')

def banner (title subtitle : String) : String :=
  "\n" ++ line rule ++ line (title ++ " " ++ subtitle) ++ line rule ++ "\n"

/-- An address with its host name, if it has one, and its port. -/
def place (address : String) (host : Option String) (port : UInt16) : String :=
  address ++
    (match host with
      | some h => " (" ++ h ++ ")"
      | none => "") ++ ":" ++ Decimal.text port.toNat

def connection (index : Nat) (c : Connection) : String :=
  let state := match c.closed with
    | some t => "closed " ++ t.text
    | none => "never closed"
  line ("[" ++ Decimal.text index ++ "] " ++ c.opened.text ++ " " ++
      place c.client.address c.clientHost c.client.port ++ " -> " ++
      place c.server.address c.serverHost c.server.port ++ "  " ++ state) ++
    line ("  Last packet: " ++ c.lastPacket.text) ++
    line ("  Payload: client " ++ Decimal.text c.clientPayload.toNat ++ " / server " ++
      Decimal.text c.serverPayload.toNat ++ " (" ++ Decimal.text c.packets.length ++ " events)") ++
    line ("  Transferred: client " ++ Decimal.text c.transferredClient.toNat ++ " / server " ++
      Decimal.text c.transferredServer.toNat) ++ "\n"

/-- The connections numbered from `index`. -/
def connectionsFrom (index : Nat) : List Connection → String
  | [] => ""
  | c :: cs => connection index c ++ connectionsFrom (index + 1) cs

def connections (focus : String) (cs : List Connection) : String :=
  banner "Connections" focus ++
    if cs = [] then line "No connections for this address." else connectionsFrom 0 cs

/-- Spaces in front up to `width` characters. -/
def rightAligned (width : Nat) (cs : List Char) : String :=
  String.ofList (List.replicate (width - cs.length) ' ' ++ cs)

def row (r : Row) : String :=
  line (r.timestamp ++ "  " ++ r.direction.text ++ "  " ++
    rightAligned 10 (Decimal.chars r.payload.toNat))

def detail (index : Nat) (focus : String) (c : Connection) : String :=
  banner "Connection" ("#" ++ Decimal.text index ++ " of " ++ focus) ++ connection index c ++
    if c.rows = [] then line "No payload events."
    else String.join (c.rows.map row) ++ "\n"

def group (title : String) (values : List String) : String :=
  line (title ++ " " ++ Decimal.text values.length) ++
    String.join (values.map fun v => line ("  " ++ v)) ++ "\n"

def indices (source : String) (x : Indices) : String :=
  banner "Indices" source ++ group "DNS clients:" x.dnsClients.toList ++
    group "IP addresses:" x.ipAddresses.toList ++ group "Hostnames:" x.hostnames.toList ++
    group "HTTP servers:" x.httpServers.toList ++ group "HTTPS servers:" x.httpsServers.toList

/-- A whole number in floating point. -/
def toFloat (n : Int) : Float :=
  let x := n.natAbs.toUInt64.toFloat
  if n < 0 then -x else x

/-- Seconds with six places, rounded from the quotient in floating point. -/
def seconds (micros : Int) : String :=
  String.ofList (Shortest.fixed 6 (toFloat micros / 1000000).toBits)

def ending (x : Ending) : String :=
  line (x.base.time.text ++ " " ++ place x.base.source x.base.sourceHost x.ports.source ++
      " <-> " ++ place x.base.destination x.base.destinationHost x.ports.destination) ++
    line ("  Duration: " ++ seconds x.duration ++ "s  Client: " ++
      Decimal.text x.closing.client.toNat ++ "  Server: " ++
      Decimal.text x.closing.server.toNat)

def ranking (k : RankKey) (xs : List Ending) : String :=
  banner "Connections by" k.text ++
    if xs = [] then line "No closed connections."
    else String.join (xs.map ending) ++ "\n"

def events (es : List Event) : String :=
  if es = [] then line "No matching events."
  else String.join (es.map fun e => line ("#" ++ Decimal.text e.base.number.toNat ++ " " ++ e.line))

end Listing
end FlowLog
