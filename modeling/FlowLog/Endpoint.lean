import FlowLog.Text.Decimal

/-! Endpoints and pairs of them. A connection is known by its two endpoints whichever of them sends:
the key puts the lower port first, and on equal ports the lesser address. -/

namespace FlowLog

/-- An address, in brackets when it holds a colon, with its port and host name if there are any. -/
def placeText (address : String) (port : Option UInt16) (host : Option String) : String :=
  (if address.toList.contains ':' then "[" ++ address ++ "]" else address) ++
    (match port with
      | some p => ":" ++ Decimal.text p.toNat
      | none => "") ++
    match host with
    | some h => " (" ++ h ++ ")"
    | none => ""

structure Endpoint where
  address : String
  port : UInt16
  deriving DecidableEq, Repr

namespace Endpoint

def text (e : Endpoint) : String := placeText e.address (some e.port) none

/-- Endpoints are listed by address and then by port. -/
instance : Ord Endpoint :=
  ⟨fun a b => (compare a.address b.address).then (compare a.port b.port)⟩

/-- Whether `a` goes first in the key of both. -/
def leads (a b : Endpoint) : Bool :=
  a.port < b.port || (a.port == b.port && decide (a.address ≤ b.address))

end Endpoint

structure ConnectionKey where
  first : Endpoint
  second : Endpoint
  deriving DecidableEq, Repr

namespace ConnectionKey

def of (a b : Endpoint) : ConnectionKey := if a.leads b then ⟨a, b⟩ else ⟨b, a⟩

def text (k : ConnectionKey) : String := k.first.text ++ " <-> " ++ k.second.text

end ConnectionKey
end FlowLog
