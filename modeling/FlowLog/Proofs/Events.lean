import FlowLog.Event.Encode
import FlowLog.Proofs.Descriptions
import FlowLog.Proofs.Records

/-! Events are read back from the records they are written to. An event's record describes the event,
since each field has the event's own content; only an instant beyond the years of four digits would
not be read again. No record gives an event with such an instant. -/

namespace FlowLog

/-- When the connection was created, which only its end reports. -/
def Detail.creation? : Detail → Option Timestamp
  | tcpEnd _ closing => some closing.creation
  | _ => none

namespace Event

def timestamps (e : Event) : List Timestamp := e.time :: e.detail.creation?.toList

def HasShortYears (e : Event) : Prop := ∀ t ∈ e.timestamps, t.HasShortYear

instance (e : Event) : Decidable e.HasShortYears :=
  inferInstanceAs (Decidable (∀ t ∈ e.timestamps, t.HasShortYear))

theorem HasShortYears.time {e : Event} (h : e.HasShortYears) : e.base.time.HasShortYear :=
  h e.time List.mem_cons_self

theorem HasShortYears.creation {b : Base} {ports : Ports} {closing : Closing}
    (h : HasShortYears ⟨b, .tcpEnd ports closing⟩) : closing.creation.HasShortYear :=
  h closing.creation (List.mem_cons_of_mem _ List.mem_cons_self)

end Event

namespace Timestamp

theorem writtenAs_text {t : Timestamp} (h : t.HasShortYear) : t.WrittenAs t.text :=
  parse?_eq_some_iff.1 (parse?_text h)

theorem WrittenAs.hasShortYear {t : Timestamp} {s : String} (h : t.WrittenAs s) : t.HasShortYear :=
  parse?_hasShortYear (parse?_eq_some_iff.2 h)

end Timestamp

namespace Event

/-- The fields of every event stand as its base wrote them, whatever its kind adds. -/
theorem toRecord_base (e : Event) {f : Field}
    (hf : f ∈ [.eventNumber, .date, .eventType, .sourceIp, .destinationIp, .sourceHostname,
      .destinationHostname]) : e.toRecord.get f = (e.base.toRecord e.tag).get f := by
  simp only [List.mem_cons, List.not_mem_nil, or_false] at hf
  rw [toRecord]
  rcases hf with rfl | rfl | rfl | rfl | rfl | rfl | rfl <;>
    cases e.detail <;> simp [Detail.fill, Ports.fill, Record.set]

theorem toRecord_eventType (e : Event) : e.toRecord.get .eventType = some e.tag.text := by
  rw [toRecord_base e (by decide)]
  simp [Base.toRecord, Record.set]

theorem toRecord_hasKind (e : Event) : e.toRecord.HasKind e.kind :=
  ⟨e.tag, e.toRecord_eventType, e.detail.tag_kind⟩

theorem toRecord_hasBase {e : Event} (h : e.HasShortYears) : e.toRecord.HasBase e.base := by
  refine ⟨?_, ⟨e.base.time.text, ?_, Timestamp.writtenAs_text h.time⟩, ?_, ?_, ?_, ?_⟩ <;>
    rw [e.toRecord_base (by decide)] <;> simp [Base.toRecord, Record.set]

theorem toRecord_hasDetail {e : Event} (h : e.HasShortYears) : e.toRecord.HasDetail e.detail := by
  obtain ⟨b, d⟩ := e
  cases d with
  | tcpEnd ports closing =>
    have hcreation := Timestamp.writtenAs_text h.creation
    simp [Record.HasDetail, Record.HasPorts, toRecord, Detail.fill, Ports.fill, Record.set,
      hcreation]
  | _ =>
    simp [Record.HasDetail, Record.HasPorts, toRecord, Detail.fill, Ports.fill, Record.set,
      Base.toRecord]

theorem describes_toRecord {e : Event} (h : e.HasShortYears) : e.toRecord.Describes e :=
  ⟨toRecord_hasBase h, toRecord_hasDetail h⟩

/-- What is written of an event is that event. -/
theorem parse_toRecord {e : Event} (h : e.HasShortYears) : parse e.toRecord = .ok e :=
  parse_eq_ok.2 ⟨e.toRecord_hasKind, describes_toRecord h⟩

/-- Instants come from texts only, so no record gives one that could not be written. -/
theorem parse_hasShortYears {r : Record} {e : Event} (h : parse r = .ok e) : e.HasShortYears := by
  obtain ⟨-, hbase, hdetail⟩ := parse_eq_ok.1 h
  obtain ⟨b, d⟩ := e
  intro t ht
  rcases List.mem_cons.1 ht with rfl | ht
  · obtain ⟨s, -, hs⟩ := hbase.time
    exact hs.hasShortYear
  -- Only the end of a connection has a second instant.
  · cases d with
    | tcpEnd ports closing =>
      obtain ⟨-, ⟨s, -, hs⟩, -⟩ := hdetail
      rw [List.mem_singleton.1 ht]
      exact hs.hasShortYear
    | _ => cases ht

end Event
end FlowLog
