import FlowLog.Proofs.Keys
import FlowLog.Proofs.Reached

/-! An event told from the other side. The key of its endpoints and whether it is in focus stay, and
the end of a connection leaves nothing else of its endpoints: the connection that it closes keeps
its own. So in every state the exchanged end does what the end does, whichever ends of a list are
exchanged; a begin or data exchanged would change the client or the sender. -/

namespace FlowLog

def Base.exchange (b : Base) : Base :=
  { b with
    source := b.destination
    destination := b.source
    sourceHost := b.destinationHost
    destinationHost := b.sourceHost }

def Ports.exchange (p : Ports) : Ports := ⟨p.destination, p.source⟩

def Detail.exchange : Detail → Detail
  | icmp type code transferred => icmp type code transferred
  | udp ports transferred => udp ports.exchange transferred
  | dns ports transferred queryType domain responses =>
    dns ports.exchange transferred queryType domain responses
  | tcpBegin ports => tcpBegin ports.exchange
  | tcpData ports payload => tcpData ports.exchange payload
  | tcpEnd ports closing => tcpEnd ports.exchange closing

/-- The event with source and destination exchanged: addresses, host names and ports. -/
def Event.exchange (e : Event) : Event := ⟨e.base.exchange, e.detail.exchange⟩

@[simp] theorem Event.exchange_kind (e : Event) : e.exchange.kind = e.kind := by
  obtain ⟨b, d⟩ := e
  cases d <;> rfl

@[simp] theorem Event.exchange_exchange (e : Event) : e.exchange.exchange = e := by
  obtain ⟨b, d⟩ := e
  cases d <;> rfl

theorem Base.exchange_key (b : Base) (p : Ports) : b.exchange.key p.exchange = b.key p :=
  ConnectionKey.of_comm (b.receiver p) (b.sender p)

namespace Reconstruction

theorem inFocus_exchange (focus : String) (b : Base) : inFocus focus b.exchange = inFocus focus b :=
  Bool.or_comm _ _

theorem onEnd_exchange (s : Reconstruction) (b : Base) (p : Ports) (closing : Closing) :
    s.onEnd b.exchange p.exchange closing = s.onEnd b p closing := by
  have hfinish (c : Connection) : c.finish b.exchange closing = c.finish b closing := rfl
  simp only [onEnd, Base.exchange_key, hfinish]

theorem handle_exchange (s : Reconstruction) {e : Event} (he : e.kind = .tcpEnd) :
    s.handle e.exchange = s.handle e := by
  obtain ⟨b, d⟩ := e
  cases d with
  | tcpEnd p closing => exact s.onEnd_exchange b p closing
  | _ => cases he

theorem process_exchange (s : Reconstruction) {e : Event} (he : e.kind = .tcpEnd) :
    s.process e.exchange = s.process e := by
  have hfocus : inFocus s.focus e.exchange.base = inFocus s.focus e.base :=
    inFocus_exchange s.focus e.base
  simp only [process, hfocus, handle_exchange _ he]

end Reconstruction

/-- The events with the chosen ones of the ends exchanged. -/
def exchangeEnds (chosen : Nat → Bool) (es : List Event) : List Event :=
  es.mapIdx fun i e => if chosen i ∧ e.kind = .tcpEnd then e.exchange else e

section
variable (chosen : Nat → Bool)

theorem exchangeEnds_append (es : List Event) (e : Event) :
    exchangeEnds chosen (es ++ [e]) = exchangeEnds chosen es ++
      [if chosen es.length ∧ e.kind = .tcpEnd then e.exchange else e] := List.mapIdx_concat

/-- Exchanged twice the ends are as they were. -/
theorem exchangeEnds_exchangeEnds (es : List Event) :
    exchangeEnds chosen (exchangeEnds chosen es) = es := by
  induction es using List.reverseRecOn with
  | nil => rfl
  | append_singleton es e ih =>
    have hlength : (exchangeEnds chosen es).length = es.length := List.length_mapIdx
    rw [exchangeEnds_append, exchangeEnds_append, ih, hlength]
    by_cases he : chosen es.length ∧ e.kind = .tcpEnd <;> simp [he]

theorem Reconstruction.process_exchangeEnds (s : Reconstruction) (i : Nat) (e : Event) :
    s.process (if chosen i ∧ e.kind = .tcpEnd then e.exchange else e) = s.process e := by
  split
  · rename_i h
    exact s.process_exchange h.2
  · rfl

theorem Reconstruction.processAll_exchangeEnds (s : Reconstruction) (es : List Event) :
    s.processAll (exchangeEnds chosen es) = s.processAll es := by
  induction es using List.reverseRecOn with
  | nil => rfl
  | append_singleton es e ih =>
    rw [exchangeEnds_append, processAll_append, processAll_append, ih, processAll_cons,
      processAll_cons, process_exchangeEnds]

theorem Reached.exchangeEnds {focus : String} {es : List Event} {s : Reconstruction}
    (h : Reached focus es s) : Reached focus (exchangeEnds chosen es) s := by
  induction h with
  | new => exact .new
  | @process es s e _ ih =>
    rw [exchangeEnds_append, ← s.process_exchangeEnds chosen es.length e]
    exact ih.process _
  | reorder _ hx ih => exact ih.reorder hx

/-- It does not matter from which side an end is reported: whichever ends are exchanged, the events
lead to the same states, with the same connections and counters. -/
theorem reconstruct_exchangeEnds (es : List Event) (focus : String) :
    reconstruct (exchangeEnds chosen es) focus = reconstruct es focus ∧
    ((Reconstruction.new focus).processAll (exchangeEnds chosen es)).stats =
      ((Reconstruction.new focus).processAll es).stats ∧
    ∀ s, Reached focus (exchangeEnds chosen es) s ↔ Reached focus es s := by
  have hall := (Reconstruction.new focus).processAll_exchangeEnds chosen es
  refine ⟨congrArg Reconstruction.finish hall, congrArg Reconstruction.stats hall, fun s => ?_⟩
  constructor
  · intro h
    rw [← exchangeEnds_exchangeEnds chosen es]
    exact h.exchangeEnds chosen
  · exact fun h => h.exchangeEnds chosen

/-- A begin that is exchanged makes the other side the client. -/
example :
    let event : Event := ⟨⟨1, ⟨0, by decide⟩, "a", "b", none, none⟩, .tcpBegin ⟨1000, 80⟩⟩
    let clients (e : Event) : List Endpoint :=
      ((Reconstruction.new "a").process e).active.map fun x => x.connection.client
    clients event = [⟨"a", 1000⟩] ∧ clients event.exchange = [⟨"b", 80⟩] := by
  decide

end
end FlowLog
