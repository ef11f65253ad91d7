import FlowLog.Proofs.History
import FlowLog.Proofs.Intake
import FlowLog.Proofs.Reports
import Mathlib.Logic.Relation

/-! Streaming agrees with loading. The reader and the engine take their moves in any order, through a
channel of any capacity; whenever both have come to their end, the store is that of a file of the
same bytes, and each focus has the connections that the store gives for it. -/

namespace FlowLog
namespace Stream

/-- The program in the middle of its input: the lines still to be read, and the event that the
reader waits to send. The channel is connected as long as the reader runs. -/
structure Session extends Pipeline where
  lines : List (List UInt8)
  outgoing : Option Event
  deriving DecidableEq

namespace Session

def start (ports : ServicePorts) (focuses : List String) (bytes : List UInt8) : Session :=
  ⟨.start ports focuses, Lines.lines bytes, none⟩

/-- A move of the reader or of the engine while nobody clears the flag. A reader whose event is
refused, since the engine has stopped, gives up. -/
inductive Step (capacity : Option Nat) : Session → Session → Prop
  | read {s : Session} {line : List UInt8} {rest : List (List UInt8)} :
      s.engine.connected → s.outgoing = none → s.lines = line :: rest →
      Step capacity s { s with
        store := (s.store.ingestLine line).1
        lines := rest
        outgoing := (s.store.ingestLine line).2 }
  | send {s : Session} {e : Event} :
      s.engine.connected → s.outgoing = some e → s.engine.phase ≠ .stopped →
      s.engine.hasRoom capacity →
      Step capacity s { s with engine := s.engine.send e, outgoing := none }
  | giveUp {s : Session} {e : Event} :
      s.engine.connected → s.outgoing = some e → s.engine.phase = .stopped →
      Step capacity s { s with engine := s.engine.disconnect }
  | finish {s : Session} :
      s.engine.connected → s.outgoing = none → s.lines = [] →
      Step capacity s { s with engine := s.engine.disconnect }
  | timeout {s : Session} :
      s.engine.phase = .receive → Step capacity s { s with engine := s.engine.timeout }
  | turn {s : Session} :
      s.engine.phase ≠ .stopped → Step capacity s { s with engine := s.engine.turn }

structure Ended (s : Session) : Prop where
  reader : s.engine.connected = false
  engine : s.engine.phase = .stopped

end Session

/-- What is to be reported of a store: each focus with its connections, and then the indices. -/
def reported (focuses : List String) (batch : Store) : List Json.Value :=
  (focuses.map fun f => focusValue f (batch.reconstruct f)) ++ [indicesValue batch.indices]

theorem map_snapshot_processAll (focuses : List String) (batch : Store) :
    (((focuses.map Reconstruction.new).map (·.processAll batch.events)).map fun r =>
      (r.focus, r.snapshot)) = focuses.map fun f => (f, batch.reconstruct f) := by
  rw [List.map_map, List.map_map]
  refine List.map_congr_left fun f _ => Prod.ext ?_ rfl
  exact (Reached.new.processAll batch.events).focus_eq

theorem linesOf_report_reported {focuses : List String} {batch : Store}
    {shared : List Reconstruction}
    (h : (shared.map fun r => (r.focus, r.snapshot)) = focuses.map fun f => (f, batch.reconstruct f)) :
    LinesOf (report shared (some batch)) (reported focuses batch) := by
  have hvalues : (shared.map fun r => focusValue r.focus r.snapshot) =
      focuses.map fun f => focusValue f (batch.reconstruct f) := by
    simpa [Function.comp_def] using congrArg (List.map fun x => focusValue x.1 x.2) h
  have hreport := linesOf_report shared batch
  rwa [hvalues] at hreport

namespace Session

variable {capacity : Option Nat} {ports : ServicePorts} {focuses : List String}
  {all : List (List UInt8)} {s t : Session}

/-- The store has taken the lines that were read, and its events are those sent and the one that
waits. The engine's part is a history of its own. -/
structure Sound (capacity : Option Nat) (ports : ServicePorts) (focuses : List String)
    (all read : List (List UInt8)) (sent : List Event) (s : Session) : Prop where
  history : Engine.History capacity (.start true (focuses.map .new)) sent s.engine
  running : s.engine.running
  events : s.store.events = sent ++ s.outgoing.toList
  lines : all = read ++ s.lines
  store : s.store = (Store.new ports).extendLines read
  finished : s.engine.connected ∨ s.outgoing = none ∧ s.lines = []

namespace Sound

variable {read : List (List UInt8)} {sent : List Event}

/-- The engine does not stop before the reader is at its end. -/
theorem connected_of_stopped (h : s.Sound capacity ports focuses all read sent)
    (hstopped : s.engine.phase = .stopped) : s.engine.connected = false := by
  obtain ⟨done, hdone⟩ := h.history.accounts
  exact (hdone.drained hstopped h.running).1

theorem step (h : s.Sound capacity ports focuses all read sent) (hstep : Step capacity s t) :
    ∃ read sent, t.Sound capacity ports focuses all read sent := by
  cases hstep with
  | read hconnected houtgoing hlines =>
    rename_i line rest
    refine ⟨read ++ [line], sent, h.history, h.running, ?_, ?_, ?_, .inl hconnected⟩
    · have hevents := h.events
      rw [houtgoing, Option.toList_none, List.append_nil] at hevents
      rw [Store.ingestLine_events, hevents]
    · rw [h.lines, hlines, List.append_assoc]
      rfl
    · rw [Store.extendLines_append, ← h.store]
      rfl
  | send hconnected houtgoing hphase hroom =>
    rename_i e
    refine ⟨read, sent ++ [e], h.history.send hconnected hroom e, h.running, ?_, h.lines, h.store,
      .inl hconnected⟩
    rw [h.events, houtgoing]
    simp
  | giveUp hconnected _ hstopped =>
    have hgone := h.connected_of_stopped hstopped
    rw [hconnected] at hgone
    contradiction
  | finish _ houtgoing hlines =>
    exact ⟨read, sent, h.history.quiet .disconnect, h.running, h.events, h.lines, h.store,
      .inr ⟨houtgoing, hlines⟩⟩
  | timeout hphase =>
    exact ⟨read, sent, h.history.quiet (.timeout hphase), h.running, h.events, h.lines, h.store,
      h.finished⟩
  | turn hphase =>
    have hrunning : s.engine.turn.running := s.engine.turn_running.trans h.running
    have hfinished : s.engine.turn.connected ∨ s.outgoing = none ∧ s.lines = [] := by
      rw [s.engine.turn_connected]
      exact h.finished
    exact ⟨read, sent, h.history.quiet (.turn hphase), hrunning, h.events, h.lines, h.store,
      hfinished⟩

theorem of_start (capacity : Option Nat) (ports : ServicePorts) (focuses : List String)
    (bytes : List UInt8) :
    (Session.start ports focuses bytes).Sound capacity ports focuses (Lines.lines bytes) [] [] :=
  ⟨.init, rfl, rfl, rfl, rfl, .inl rfl⟩

theorem of_reached {bytes : List UInt8}
    (h : Relation.ReflTransGen (Step capacity) (Session.start ports focuses bytes) s) :
    ∃ read sent, s.Sound capacity ports focuses (Lines.lines bytes) read sent := by
  induction h with
  | refl => exact ⟨[], [], of_start capacity ports focuses bytes⟩
  | tail _ hstep ih =>
    obtain ⟨read, sent, ih⟩ := ih
    exact ih.step hstep

theorem ended (h : s.Sound capacity ports focuses all read sent) (hended : s.Ended) :
    s.store = (Store.new ports).extendLines all ∧
    s.engine.shared = (focuses.map Reconstruction.new).map (·.processAll s.store.events) := by
  have hfinished := h.finished
  rw [hended.reader] at hfinished
  obtain ⟨houtgoing, hlines⟩ := hfinished.resolve_left Bool.false_ne_true
  have hall : all = read := by rw [h.lines, hlines, List.append_nil]
  have hsent : s.store.events = sent := by
    rw [h.events, houtgoing, Option.toList_none, List.append_nil]
  obtain ⟨done, hdone⟩ := h.history.accounts
  have hdone' : sent = done := hdone.sent_eq_done hended.engine h.running
  have hlock : s.engine.phase.holdsLock = false := by rw [hended.engine]; rfl
  refine ⟨hall ▸ h.store, ?_⟩
  rw [hsent, hdone']
  exact hdone.shared_eq hlock

end Sound

open Relation

/-! The run in which the engine is through with each event before the reader goes on. -/

theorem reaches_turns (capacity : Option Nat) (s : Session) (n : Nat) :
    ReflTransGen (Step capacity) s { s with engine := s.engine.turns n } := by
  induction n generalizing s with
  | zero => exact .refl
  | succ n ih =>
    by_cases hstopped : s.engine.phase = .stopped
    · have hsame : s.engine.turn = s.engine := by rw [Engine.turn, hstopped]
      rw [Engine.turns, hsame]
      exact ih s
    · exact .head (.turn hstopped) (ih { s with engine := s.engine.turn })

theorem reaches_feed (capacity : Option Nat) (store : Store) (shared : List Reconstruction)
    (line : List UInt8) (rest : List (List UInt8)) :
    ∃ shared', (Pipeline.feed ⟨store, .start true shared⟩ line).engine = .start true shared' ∧
      ReflTransGen (Step capacity) ⟨⟨store, .start true shared⟩, line :: rest, none⟩
        ⟨Pipeline.feed ⟨store, .start true shared⟩ line, rest, none⟩ := by
  have hread : Step capacity ⟨⟨store, .start true shared⟩, line :: rest, none⟩
      ⟨⟨(store.ingestLine line).1, .start true shared⟩, rest, (store.ingestLine line).2⟩ :=
    .read rfl rfl rfl
  rcases hfound : store.ingestLine line with ⟨store', found⟩
  rw [hfound] at hread
  cases found with
  | none =>
    have hfeed : Pipeline.feed ⟨store, .start true shared⟩ line = ⟨store', .start true shared⟩ := by
      rw [Pipeline.feed, hfound]
    rw [hfeed]
    exact ⟨shared, rfl, .single hread⟩
  | some e =>
    have hfeed : Pipeline.feed ⟨store, .start true shared⟩ line =
        ⟨store', .start true (shared.map (·.process e))⟩ := by
      rw [Pipeline.feed, hfound, ← Engine.deliver_start]
    have hwait : Step capacity ⟨⟨store', .start true shared⟩, rest, some e⟩
        ⟨⟨store', .waiting shared⟩, rest, some e⟩ := .turn (by simp [Engine.start])
    have hsend : Step capacity ⟨⟨store', .waiting shared⟩, rest, some e⟩
        ⟨⟨store', (Engine.waiting shared).send e⟩, rest, none⟩ :=
      .send rfl rfl (by simp [Engine.waiting]) (Engine.waiting_hasRoom capacity shared)
    have hturns := reaches_turns capacity
      ⟨⟨store', (Engine.waiting shared).send e⟩, rest, none⟩ (shared.length + 3)
    rw [Engine.turns_waiting_send] at hturns
    rw [hfeed]
    exact ⟨shared.map (·.process e), rfl, .head hread (.head hwait (.head hsend hturns))⟩

theorem reaches_feeds (capacity : Option Nat) (store : Store) (shared : List Reconstruction)
    (lines : List (List UInt8)) :
    ∃ store' shared',
      lines.foldl Pipeline.feed ⟨store, .start true shared⟩ = ⟨store', .start true shared'⟩ ∧
      ReflTransGen (Step capacity) ⟨⟨store, .start true shared⟩, lines, none⟩
        ⟨⟨store', .start true shared'⟩, [], none⟩ := by
  induction lines generalizing store shared with
  | nil => exact ⟨store, shared, rfl, .refl⟩
  | cons line rest ih =>
    obtain ⟨shared₁, hengine, hfeed⟩ := reaches_feed capacity store shared line rest
    obtain ⟨store₁, hstore⟩ : ∃ store₁, Pipeline.feed ⟨store, .start true shared⟩ line =
        ⟨store₁, .start true shared₁⟩ := ⟨_, by rw [← hengine]⟩
    obtain ⟨store', shared', heq, hrest⟩ := ih store₁ shared₁
    rw [hstore] at hfeed
    exact ⟨store', shared', by rw [List.foldl_cons, hstore, heq], hfeed.trans hrest⟩

/-- The program's own run is one of them, and it comes to its end. -/
theorem reaches_feedAll (capacity : Option Nat) (ports : ServicePorts) (focuses : List String)
    (bytes : List UInt8) :
    ReflTransGen (Step capacity) (Session.start ports focuses bytes)
      ⟨(Pipeline.start ports focuses).feedAll bytes, [], none⟩ ∧
    Ended ⟨(Pipeline.start ports focuses).feedAll bytes, [], none⟩ := by
  obtain ⟨store, shared, heq, hfeeds⟩ :=
    reaches_feeds capacity (.new ports) (focuses.map .new) (Lines.lines bytes)
  have hall : (Pipeline.start ports focuses).feedAll bytes =
      ⟨store, (Engine.start true shared).disconnect.turns 2⟩ := by
    rw [Pipeline.feedAll, Pipeline.start, heq]
  rw [hall]
  refine ⟨hfeeds.trans (.head (.finish rfl rfl rfl) (reaches_turns capacity _ 2)), rfl, rfl⟩

/-- Whatever moves led to its end, a session has the store of the bytes as they are loaded. -/
theorem reports_batch {bytes : List UInt8} {batch : Store}
    (hbatch : (Store.new ports).loadBytes? bytes = some batch) (hlines : Store.isArray bytes = false)
    (h : ReflTransGen (Step capacity) (Session.start ports focuses bytes) s) (hended : s.Ended) :
    s.store = batch ∧
    (s.engine.shared.map fun r => (r.focus, r.snapshot)) =
      (focuses.map fun f => (f, batch.reconstruct f)) ∧
    LinesOf (report s.engine.shared (some s.store)) (reported focuses batch) := by
  obtain ⟨read, sent, hsound⟩ := Sound.of_reached h
  obtain ⟨hstore, hshared⟩ := hsound.ended hended
  have hloaded := hbatch.symm.trans (Store.loadBytes?_lines _ hlines)
  have hsame : s.store = batch := by
    rw [hstore, ← Store.extendLines_pieces, Option.some.inj hloaded]
  rw [hsame] at hshared ⊢
  have hsnapshots := hshared ▸ map_snapshot_processAll focuses batch
  exact ⟨rfl, hsnapshots, linesOf_report_reported hsnapshots⟩

end Session

/-- Bytes that do not begin an array are streamed as they are loaded. The program prints for each focus
what the store of the whole file gives, and then its indices; and every other run of reader and
engine that comes to its end, as some do whatever the capacity of the channel, has the same store,
the same connections and the same to print. -/
theorem run_eq_batch (files : Files) (args : List String) (stdin bytes : List UInt8)
    (hinput : args.head?.getD standardInput = standardInput ∧ bytes = stdin ∨
      args.head?.getD standardInput ≠ standardInput ∧
        files.find (args.head?.getD standardInput) = .ok (.file bytes))
    (hfocus : focuses args.tail (Config.load (files.read? Config.path)) ≠ [])
    (hlines : Store.isArray bytes = false) :
    let config := Config.load (files.read? Config.path)
    let focuses := focuses args.tail config
    ∃ batch, (Store.new config.servicePorts).loadBytes? bytes = some batch ∧
      (∃ text, run files args stdin = .ok text ∧ LinesOf text (reported focuses batch)) ∧
      ∀ capacity : Option Nat,
        (∃ s, Relation.ReflTransGen (Session.Step capacity)
          (Session.start config.servicePorts focuses bytes) s ∧ s.Ended) ∧
        ∀ s, Relation.ReflTransGen (Session.Step capacity)
          (Session.start config.servicePorts focuses bytes) s → s.Ended →
          s.store = batch ∧
          (s.engine.shared.map fun r => (r.focus, r.snapshot)) =
            (focuses.map fun f => (f, batch.reconstruct f)) ∧
          LinesOf (report s.engine.shared (some s.store)) (reported focuses batch) := by
  intro config focuses
  have hbatch := Store.loadBytes?_lines (.new config.servicePorts) hlines
  have hreach (capacity : Option Nat) :=
    Session.reaches_feedAll capacity config.servicePorts focuses bytes
  obtain ⟨hpath, hended⟩ := hreach none
  refine ⟨_, hbatch, ⟨_, ?_, (Session.reports_batch hbatch hlines hpath hended).2.2⟩,
    fun capacity => ⟨⟨_, hreach capacity⟩, fun _ => Session.reports_batch hbatch hlines⟩⟩
  unfold run
  rcases hinput with ⟨hstandard, rfl⟩ | ⟨hother, hfile⟩
  · simp only [hfocus, hstandard, if_true, if_false]
    rfl
  · simp only [hfocus, hother, hfile, if_false]
    rfl

/-- A blank line with a carriage return, an event, and a last line that is no text. -/
theorem run_eq_batch_of_lines :
    let base : Base := ⟨1, ⟨0, by decide⟩, "a", "b", none, none⟩
    let event : Event := ⟨base, .tcpBegin ⟨1000, 80⟩⟩
    let bytes : List UInt8 := [32, 13, 10] ++ Utf8.encode (Event.jsonLines [event]) ++ [255]
    let files : Files := ⟨[], [], [[]]⟩
    let args := [standardInput, "a", "b", "a"]
    let config := Config.load (files.read? Config.path)
    let focuses := focuses args.tail config
    focuses = ["a", "b", "a"] ∧ Store.isArray bytes = false ∧
    ∃ batch, (Store.new config.servicePorts).loadBytes? bytes = some batch ∧
      (∃ text, run files args bytes = .ok text ∧ LinesOf text (reported focuses batch)) ∧
      ∀ capacity : Option Nat,
        (∃ s, Relation.ReflTransGen (Session.Step capacity)
          (Session.start config.servicePorts focuses bytes) s ∧ s.Ended) ∧
        ∀ s, Relation.ReflTransGen (Session.Step capacity)
          (Session.start config.servicePorts focuses bytes) s → s.Ended →
          s.store = batch ∧
          (s.engine.shared.map fun r => (r.focus, r.snapshot)) =
            (focuses.map fun f => (f, batch.reconstruct f)) ∧
          LinesOf (report s.engine.shared (some s.store)) (reported focuses batch) := by
  intro base event bytes files args config focuses
  have hfocus : focuses = ["a", "b", "a"] := rfl
  have hlines : Store.isArray bytes = false := by rfl
  have hne : focuses ≠ [] := List.cons_ne_nil "a" ["b", "a"]
  exact ⟨hfocus, hlines, run_eq_batch files args bytes bytes (.inl ⟨rfl, rfl⟩) hne hlines⟩

end Stream
end FlowLog
