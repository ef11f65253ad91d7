import FlowLog.Endpoint
import FlowLog.Event

/-! An event as a line for people: its time, where it went, and what its kind has to say. -/

namespace FlowLog

def Detail.text : Detail → String
  | icmp type code transferred =>
    "[ICMP] Type: " ++ Decimal.text type.toNat ++ ", code: " ++ Decimal.text code.toNat ++
      ", transferred: " ++ Decimal.text transferred.toNat
  | udp _ transferred => "[UDP] Transferred: " ++ Decimal.text transferred.toNat
  | dns _ transferred queryType domain responses =>
    "[DNS " ++ (if responses.isNone then "query" else "response") ++ "] Query type: " ++
      Decimal.text queryType.toNat ++ ", domain: '" ++ domain ++ "', transferred: " ++
      Decimal.text transferred.toNat ++
      match responses with
      | some rs => ", responses: " ++ ", ".intercalate rs
      | none => ""
  | tcpBegin _ => "[Begin TCP connection]"
  | tcpData _ payload => "[TCP data] Payload: " ++ Decimal.text payload.toNat
  | tcpEnd _ closing =>
    "[End TCP connection] Creation: " ++ closing.creation.text ++ ", transferred client: " ++
      Decimal.text closing.client.toNat ++ ", transferred server: " ++
      Decimal.text closing.server.toNat

def Event.line (e : Event) : String :=
  let ports := e.detail.ports?
  "[" ++ e.time.text ++ "] " ++
    placeText e.base.source (ports.map Ports.source) e.base.sourceHost ++ " -> " ++
    placeText e.base.destination (ports.map Ports.destination) e.base.destinationHost ++ " " ++
    e.detail.text

end FlowLog
