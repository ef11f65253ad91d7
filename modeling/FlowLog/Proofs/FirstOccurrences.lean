import FlowLog.Proofs.Offers

/-! The indices of a store are functions of its events. Inserting one element after another keeps the
first occurrences, in order, so each index is what its addresses or names in the list of events are
without their repetitions. -/

namespace FlowLog
namespace InsertionSet

variable {α : Type} [DecidableEq α]

theorem eraseDups_of_nodup {xs : List α} (h : xs.Nodup) : xs.eraseDups = xs := by
  induction xs with
  | nil => rfl
  | cons x xs ih =>
    obtain ⟨hx, hxs⟩ := List.nodup_cons.1 h
    have hfilter : (xs.filter fun y => !y == x) = xs := by
      rw [List.filter_eq_self]
      intro y hy
      simpa using ne_of_mem_of_not_mem hy hx
    rw [List.eraseDups_cons, hfilter, ih hxs]

theorem insertAll_toList (s : InsertionSet α) (xs : List α) :
    (s.insertAll xs).toList = (s.toList ++ xs).eraseDups := by
  induction xs generalizing s with
  | nil => rw [insertAll_nil, List.append_nil, eraseDups_of_nodup s.nodup]
  | cons x xs ih =>
    rw [insertAll_cons, ih, insert_toList]
    by_cases hx : x ∈ s.toList
    · simp [hx, List.eraseDups_append, List.cons_removeAll]
    · simp [hx]

theorem ofList_toList (xs : List α) : (ofList xs).toList = xs.eraseDups :=
  insertAll_toList empty xs

end InsertionSet

namespace Event

/-- A name query is a name event without a list of answers. -/
def isQuery (e : Event) : Bool :=
  match e.detail with
  | .dns _ _ _ _ none => true
  | _ => false

def beginPort? (e : Event) : Option UInt16 :=
  match e.detail with
  | .tcpBegin p => some p.destination
  | _ => none

/-- The name of the destination, or its address if it has none. -/
def serverName (e : Event) : String := e.base.destinationHost.getD e.base.destination

theorem dnsClient_eq (e : Event) : e.dnsClient = if e.isQuery then [e.base.source] else [] := by
  obtain ⟨b, d⟩ := e
  cases d with
  | dns _ _ _ _ responses => cases responses <;> rfl
  | _ => rfl

theorem server_eq (serves : UInt16 → Bool) (e : Event) :
    e.server serves = if e.beginPort?.any serves then [e.serverName] else [] := by
  obtain ⟨b, d⟩ := e
  cases d <;> rfl

theorem flatMap_guard {p : Event → Bool} {f : Event → String} {g : Event → List String}
    (hg : ∀ e, g e = if p e then [f e] else []) (es : List Event) :
    es.flatMap g = (es.filter p).map f := by
  induction es with
  | nil => rfl
  | cons e es ih => cases he : p e <;> simp [hg, he, ih]

end Event

namespace Indices

theorem foldl_observe (ports : ServicePorts) (x : Indices) (es : List Event) :
    es.foldl (fun x e => x.observe ports e) x =
      { dnsClients := x.dnsClients.insertAll (es.flatMap Event.dnsClient)
        ipAddresses := x.ipAddresses.insertAll (es.flatMap Event.addresses)
        hostnames := x.hostnames.insertAll (es.flatMap Event.hosts)
        httpServers := x.httpServers.insertAll (es.flatMap (·.server ports.isHttp))
        httpsServers := x.httpsServers.insertAll (es.flatMap (·.server ports.isHttps)) } := by
  induction es generalizing x with
  | nil => rfl
  | cons e es ih =>
    rw [List.foldl_cons, ih]
    simp [observe]

end Indices

namespace Store

/-- After any calls on a new store its indices list, each once and in the order of their first
occurrence in the events that it holds, the senders of name queries, all addresses, all host names, and
the servers to whose ports connections were begun; a port that stands in both lists is plain. -/
theorem offerAll_indices (ports : ServicePorts) (os : List Offer) :
    let s := (new ports).offerAll os
    s.indices.dnsClients.toList =
      ((s.events.filter Event.isQuery).map (·.base.source)).eraseDups ∧
    s.indices.ipAddresses.toList =
      (s.events.flatMap fun e => [e.base.source, e.base.destination]).eraseDups ∧
    s.indices.hostnames.toList =
      (s.events.flatMap fun e =>
        e.base.sourceHost.toList ++ e.base.destinationHost.toList).eraseDups ∧
    s.indices.httpServers.toList =
      ((s.events.filter fun e => e.beginPort?.any (· ∈ ports.http)).map
        Event.serverName).eraseDups ∧
    s.indices.httpsServers.toList =
      ((s.events.filter fun e => e.beginPort?.any fun p => p ∈ ports.https ∧ p ∉ ports.http).map
        Event.serverName).eraseDups := by
  have hhttp : ports.isHttp = fun p => decide (p ∈ ports.http) := by
    funext p
    simp [ServicePorts.isHttp]
  have hhttps : ports.isHttps = fun p => decide (p ∈ ports.https ∧ p ∉ ports.http) := by
    funext p
    simp [ServicePorts.isHttps, ServicePorts.isHttp, Bool.and_comm]
  intro s
  have hindices : s.indices = s.events.foldl (fun x e => x.observe ports e) .empty :=
    (accounted ports os).indices
  rw [hindices, Indices.foldl_observe, Event.flatMap_guard Event.dnsClient_eq,
    Event.flatMap_guard (Event.server_eq _), Event.flatMap_guard (Event.server_eq _), hhttp, hhttps]
  exact ⟨InsertionSet.ofList_toList _, InsertionSet.ofList_toList _, InsertionSet.ofList_toList _,
    InsertionSet.ofList_toList _, InsertionSet.ofList_toList _⟩

end Store
end FlowLog
