import FlowLog.Endpoint
import FlowLog.Event

/-! One reconstructed connection. Whoever sent the begin event is the client. A connection without
an end never saw its end event. Payloads are totalled for each side and kept in order of arrival;
a packet that the client's endpoint did not send counts for the server. -/

namespace FlowLog

/-- A data event of a connection. -/
structure Packet where
  base : Base
  ports : Ports
  payload : UInt64
  deriving DecidableEq, Repr

def Base.sender (b : Base) (p : Ports) : Endpoint := ⟨b.source, p.source⟩

def Base.receiver (b : Base) (p : Ports) : Endpoint := ⟨b.destination, p.destination⟩

/-- The pair of endpoints between which an event passed. -/
def Base.key (b : Base) (p : Ports) : ConnectionKey := .of (b.sender p) (b.receiver p)

inductive Direction
  | toServer | toClient
  deriving DecidableEq, Repr

def Direction.text : Direction → String
  | toServer => "Client -> Server"
  | toClient => "Server -> Client"

structure Connection where
  client : Endpoint
  clientHost : Option String
  server : Endpoint
  serverHost : Option String
  opened : Timestamp
  closed : Option Timestamp
  lastPacket : Timestamp
  clientPayload : UInt64
  serverPayload : UInt64
  transferredClient : UInt64
  transferredServer : UInt64
  packets : List Packet
  deriving DecidableEq, Repr

namespace Connection

/-- The connection that a begin event opens. -/
def start (b : Base) (p : Ports) : Connection where
  client := b.sender p
  clientHost := b.sourceHost
  server := b.receiver p
  serverHost := b.destinationHost
  opened := b.time
  closed := none
  lastPacket := b.time
  clientPayload := 0
  serverPayload := 0
  transferredClient := 0
  transferredServer := 0
  packets := []

def direction (c : Connection) (p : Packet) : Direction :=
  if p.base.sender p.ports = c.client then .toServer else .toClient

def record (c : Connection) (p : Packet) : Connection :=
  match c.direction p with
  | .toServer =>
    { c with
      clientPayload := addSaturating c.clientPayload p.payload
      lastPacket := p.base.time
      packets := c.packets ++ [p] }
  | .toClient =>
    { c with
      serverPayload := addSaturating c.serverPayload p.payload
      lastPacket := p.base.time
      packets := c.packets ++ [p] }

/-- The connection after its end event. -/
def finish (c : Connection) (b : Base) (closing : Closing) : Connection :=
  { c with
    transferredClient := closing.client
    transferredServer := closing.server
    lastPacket := b.time
    closed := some b.time }

def isTerminated (c : Connection) : Bool := c.closed.isSome

/-- The key of the connection's own endpoints. -/
def key (c : Connection) : ConnectionKey := .of c.client c.server

@[simp] theorem start_packets (b : Base) (p : Ports) : (start b p).packets = [] := rfl
@[simp] theorem start_key (b : Base) (p : Ports) : (start b p).key = b.key p := rfl
@[simp] theorem record_packets (c : Connection) (p : Packet) :
    (c.record p).packets = c.packets ++ [p] := by
  unfold record
  split <;> rfl
@[simp] theorem record_key (c : Connection) (p : Packet) : (c.record p).key = c.key := by
  unfold record
  split <;> rfl
@[simp] theorem finish_packets (c : Connection) (b : Base) (closing : Closing) :
    (c.finish b closing).packets = c.packets := rfl
@[simp] theorem finish_key (c : Connection) (b : Base) (closing : Closing) :
    (c.finish b closing).key = c.key := rfl

end Connection
end FlowLog
