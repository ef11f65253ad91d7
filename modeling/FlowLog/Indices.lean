import FlowLog.Event
import FlowLog.InsertionSet
import FlowLog.Json.Printer

/-! Addresses and host names met in a list of events: who asked for names, all addresses, all host
names, and the servers of the web by the port on which a connection to them was begun. A server is
listed by its host name, or by its address if it has none. -/

namespace FlowLog

/-- The ports that mark the destination of a begin event as a web server. A port in both lists
counts as plain. -/
structure ServicePorts where
  http : List UInt16
  https : List UInt16
  deriving DecidableEq, Repr

def ServicePorts.standard : ServicePorts := ⟨[80], [443]⟩

structure Indices where
  dnsClients : InsertionSet String
  ipAddresses : InsertionSet String
  hostnames : InsertionSet String
  httpServers : InsertionSet String
  httpsServers : InsertionSet String
  deriving DecidableEq

namespace Event

/-- The sender of a name query. -/
def dnsClient (e : Event) : List String :=
  match e.detail with
  | .dns _ _ _ _ none => [e.base.source]
  | _ => []

def addresses (e : Event) : List String := [e.base.source, e.base.destination]

def hosts (e : Event) : List String := e.base.sourceHost.toList ++ e.base.destinationHost.toList

/-- The server that a begin event names, if its port has the property. -/
def server (e : Event) (serves : UInt16 → Bool) : List String :=
  match e.detail with
  | .tcpBegin p =>
    if serves p.destination then [e.base.destinationHost.getD e.base.destination] else []
  | _ => []

end Event

namespace ServicePorts

def isHttp (ports : ServicePorts) (p : UInt16) : Bool := ports.http.contains p

def isHttps (ports : ServicePorts) (p : UInt16) : Bool := !ports.isHttp p && ports.https.contains p

end ServicePorts

namespace Indices

def empty : Indices := ⟨.empty, .empty, .empty, .empty, .empty⟩

def observe (x : Indices) (ports : ServicePorts) (e : Event) : Indices where
  dnsClients := x.dnsClients.insertAll e.dnsClient
  ipAddresses := x.ipAddresses.insertAll e.addresses
  hostnames := x.hostnames.insertAll e.hosts
  httpServers := x.httpServers.insertAll (e.server ports.isHttp)
  httpsServers := x.httpsServers.insertAll (e.server ports.isHttps)

/-- The sets by name. -/
def groups (x : Indices) : List (String × List String) :=
  [("dns-clients", x.dnsClients.toList), ("ip-addresses", x.ipAddresses.toList),
    ("hostnames", x.hostnames.toList), ("http-servers", x.httpServers.toList),
    ("https-servers", x.httpsServers.toList)]

def toValue (x : Indices) : Json.Value :=
  .object (x.groups.map fun g => (g.1, .strings g.2))

end Indices
end FlowLog
