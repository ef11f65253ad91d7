import FlowLog.Event
import FlowLog.Text.Lowercase

/-! Closed connections by their duration or by the bytes they carried. Equal ones keep the order of
the events in both directions. -/

namespace FlowLog

/-- An end event. -/
structure Ending where
  base : Base
  ports : Ports
  closing : Closing
  deriving DecidableEq, Repr

namespace Ending

def ofEvent? (e : Event) : Option Ending :=
  match e.detail with
  | .tcpEnd p closing => some ⟨e.base, p, closing⟩
  | _ => none

def duration (x : Ending) : Int := x.closing.duration x.base.time

end Ending

inductive RankKey
  | duration | transferredClient | transferredServer | transferred
  deriving DecidableEq, Repr

namespace RankKey

def all : List RankKey := [duration, transferredClient, transferredServer, transferred]

def text : RankKey → String
  | duration => "duration"
  | transferredClient => "transferred-client"
  | transferredServer => "transferred-server"
  | transferred => "transferred"

def measure : RankKey → Ending → Int
  | duration, x => x.duration
  | transferredClient, x => x.closing.client.toNat
  | transferredServer, x => x.closing.server.toNat
  | transferred, x => x.closing.transferred.toNat

/-- The key of a name in any case, or the name in lower case when there is none. -/
def parse (s : String) : Except String RankKey :=
  let name := Lowercase.text s
  match all.find? (·.text == name) with
  | some k => .ok k
  | none => .error name

def unknownMessage (name : String) : String := "unknown ranking key '" ++ name ++ "'"

end RankKey

inductive SortOrder
  | ascending | descending
  deriving DecidableEq, Repr

/-- Whether `a` may stand before `b`. -/
def SortOrder.allows (order : SortOrder) (k : RankKey) (a b : Ending) : Bool :=
  match order with
  | ascending => k.measure a ≤ k.measure b
  | descending => k.measure b ≤ k.measure a

def rank (es : List Event) (k : RankKey) (order : SortOrder) : List Ending :=
  (es.filterMap Ending.ofEvent?).mergeSort (order.allows k)

end FlowLog
