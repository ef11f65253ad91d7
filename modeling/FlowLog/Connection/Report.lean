import FlowLog.Connection
import FlowLog.Json.Printer

/-! What is reported of a connection: a summary, its packets as rows in order of arrival, and for
each direction the points of time and payload in order of time. -/

namespace FlowLog

structure Row where
  timestamp : String
  direction : Direction
  payload : UInt64
  deriving DecidableEq, Repr

def Row.toValue (r : Row) : Json.Value :=
  .object
    [("timestamp", .string r.timestamp), ("direction", .string r.direction.text),
      ("payload", .ofNat r.payload.toNat)]

namespace Connection

def rows (c : Connection) : List Row :=
  c.packets.map fun p => ⟨p.base.time.text, c.direction p, p.payload⟩

/-- The points of the packets that went in one direction; points of one time keep their order. -/
def series (c : Connection) (d : Direction) : List (Int × UInt64) :=
  ((c.packets.filter fun p => c.direction p = d).map fun p =>
    (p.base.time.micros, p.payload)).mergeSort fun p q => p.1 ≤ q.1

def summary (c : Connection) : Json.Value :=
  .object
    [("begin", .string c.opened.text),
      ("end", .ofOption (c.closed.map fun t => .string t.text)),
      ("time-last-packet", .string c.lastPacket.text),
      ("client-ip", .string c.client.address),
      ("client-hostname", .ofOption (c.clientHost.map .string)),
      ("client-port", .ofNat c.client.port.toNat),
      ("server-ip", .string c.server.address),
      ("server-hostname", .ofOption (c.serverHost.map .string)),
      ("server-port", .ofNat c.server.port.toNat),
      ("client-payload", .ofNat c.clientPayload.toNat),
      ("server-payload", .ofNat c.serverPayload.toNat),
      ("transferred-client", .ofNat c.transferredClient.toNat),
      ("transferred-server", .ofNat c.transferredServer.toNat),
      ("payload-events", .ofNat c.packets.length)]

end Connection
end FlowLog
