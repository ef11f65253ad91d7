import FlowLog.Proofs.Encoding
import FlowLog.Proofs.Ingestion

/-! Files of events are read back. Each event is one line of bytes between braces, in which no line
feed occurs, so a store cuts the file where it was joined; each line gives the event that was written
on it and is counted as parsed. -/

namespace FlowLog

/-- The bytes of an event's line without the line feed that ends it. -/
def Event.lineBytes (e : Event) : List UInt8 := Utf8.encode e.toRecord.toValue.compact

namespace Event

/-- A line begins and ends with a brace. -/
theorem lineBytes_eq (e : Event) :
    ∃ bs, e.lineBytes = 123 :: bs ++ [125] := by
  refine ⟨Utf8.encode (Json.Value.compactMembers e.toRecord.members), ?_⟩
  have hcompact : e.toRecord.toValue.compact =
      '\x7b' :: Json.Value.compactMembers e.toRecord.members ++ ['\x7d'] := rfl
  rw [lineBytes, hcompact, Utf8.encode_append, Utf8.encode_cons]
  rfl

theorem lineFeed_notMem_lineBytes (e : Event) : Lines.lineFeed ∉ e.lineBytes :=
  Utf8.lineFeed_notMem_encode (Json.Value.newline_notMem_compact (e.toRecord.toValue_plain 0))

theorem encode_jsonLines (es : List Event) :
    Utf8.encode (jsonLines es) = (es.map lineBytes).flatMap fun l => l ++ [Lines.lineFeed] := by
  induction es with
  | nil => rfl
  | cons e es ih =>
    have hline : Utf8.encode (e.toRecord.toValue.compact ++ ['\n']) =
        e.lineBytes ++ [Lines.lineFeed] := by
      rw [Utf8.encode_append]
      rfl
    rw [List.map_cons, List.flatMap_cons, ← ih, ← hline, ← Utf8.encode_append]
    rfl

end Event

namespace Store

/-! One line. -/

theorem ingestValue_toValue (s : Store) {e : Event} (h : e.HasShortYears) :
    s.ingestValue e.toRecord.toValue.sorted = (s.push e, some e) := by
  rw [ingestValue_record, ingest, Event.parse_toRecord h]
  rfl

theorem ingestLine_lineBytes (s : Store) {e : Event} (h : e.HasShortYears) :
    s.ingestLine e.lineBytes = (s.push e, some e) := by
  obtain ⟨bs, hbs⟩ := e.lineBytes_eq
  have htrim : Lines.trim e.lineBytes = e.lineBytes := by
    rw [hbs]
    exact Lines.trim_of_ends (by decide) (by decide) bs
  have hne : e.lineBytes ≠ [] := by rw [hbs]; nofun
  have hread : Json.Value.ofBytes? e.lineBytes = some e.toRecord.toValue.sorted := by
    rw [Json.Value.ofBytes?, Event.lineBytes, Utf8.decode_encode]
    exact Json.Value.read?_compact (e.toRecord.toValue_plain 125)
  rw [ingestLine, htrim, if_neg hne, hread]
  exact s.ingestValue_toValue h

/-! A file of lines. -/

theorem extendLines_lineBytes (s : Store) {es : List Event} (h : ∀ e ∈ es, e.HasShortYears) :
    s.extendLines (es.map Event.lineBytes) = es.foldl push s := by
  induction es generalizing s with
  | nil => rfl
  | cons e es ih =>
    have he := s.ingestLine_lineBytes (h e List.mem_cons_self)
    rw [List.foldl_cons, ← ih (s.push e) fun d hd => h d (List.mem_cons_of_mem e hd)]
    change (s.ingestLine e.lineBytes).1.extendLines _ = _
    rw [he]

theorem foldl_push_events (s : Store) (es : List Event) :
    (es.foldl push s).events = s.events ++ es := by
  induction es generalizing s with
  | nil => exact (List.append_nil _).symm
  | cons e es ih =>
    rw [List.foldl_cons, ih]
    exact List.append_cons s.events e es ▸ rfl

theorem foldl_push_report (s : Store) (es : List Event) : (es.foldl push s).report =
    ⟨s.report.parsed + es.length, s.report.skipped, s.report.unknown⟩ := by
  induction es generalizing s with
  | nil => rfl
  | cons e es ih =>
    rw [List.foldl_cons, ih, List.length_cons, Nat.add_comm es.length, ← Nat.add_assoc]
    rfl

/-- A file of events is no array. -/
theorem isArray_jsonLines (es : List Event) : isArray (Utf8.encode (Event.jsonLines es)) = false := by
  cases es with
  | nil => rfl
  | cons e es =>
    obtain ⟨bs, hbs⟩ := e.lineBytes_eq
    rw [Event.encode_jsonLines, List.map_cons, List.flatMap_cons, hbs]
    rfl

theorem loadBytes?_written (s : Store) {es : List Event} (h : ∀ e ∈ es, e.HasShortYears) :
    s.loadBytes? (Utf8.encode (Event.jsonLines es)) = some (es.foldl push s) := by
  have hlines : ∀ l ∈ es.map Event.lineBytes, Lines.lineFeed ∉ l := by
    intro l hl
    obtain ⟨e, -, rfl⟩ := List.mem_map.1 hl
    exact e.lineFeed_notMem_lineBytes
  rw [s.loadBytes?_lines (isArray_jsonLines es), Event.encode_jsonLines, Lines.pieces_flatMap hlines,
    extendLines_append, extendLines_lineBytes s h, extendLines_singleton, ingestLine_nil]

end Store

/-! Files give only events that can be read again. -/

namespace Event

theorem ofValue_hasShortYears {v : Json.Value} {e : Event} (h : ofValue v = .ok e) :
    e.HasShortYears := by
  unfold ofValue at h
  split at h
  · cases h
  · exact parse_hasShortYears h

end Event

namespace Outcome

theorem mem_events {xs : List Outcome} {e : Event} : e ∈ events xs ↔ parsed e ∈ xs := by
  rw [events, List.mem_filterMap]
  constructor
  · rintro ⟨x, hx, he⟩
    cases x <;> cases he
    exact hx
  · exact fun h => ⟨parsed e, h, rfl⟩

theorem exists_value_of_line {line : List UInt8} {e : Event} (h : ofLine? line = some (parsed e)) :
    ∃ v, ofValue v = parsed e := by
  unfold ofLine? at h
  split at h
  · cases h
  · cases hread : Json.Value.ofBytes? (Lines.trim line) with
    | none => simp [hread] at h
    | some v => exact ⟨v, by simpa [hread] using h⟩

theorem exists_value_of_file {bs : List UInt8} {e : Event} (h : parsed e ∈ ofFile bs) :
    ∃ v, ofValue v = parsed e := by
  unfold ofFile at h
  split at h
  · obtain ⟨v, -, hv⟩ := List.mem_map.1 h
    exact ⟨v, hv⟩
  · obtain ⟨line, -, hline⟩ := List.mem_filterMap.1 h
    exact exists_value_of_line hline

end Outcome

namespace Store

theorem hasShortYears_of_loadBytes? {ports : ServicePorts} {bs : List UInt8} {s : Store}
    (h : (new ports).loadBytes? bs = some s) : ∀ e ∈ s.events, e.HasShortYears := by
  intro e he
  rw [loadBytes?, loadBytes_eq] at h
  split at h
  · rename_i hload
    cases h
    rw [← (Prod.mk.inj hload).1, settleAll_eq] at he
    obtain ⟨v, hv⟩ := Outcome.exists_value_of_file (Outcome.mem_events.1 he)
    exact Event.ofValue_hasShortYears (Outcome.ofValue_eq_parsed.1 hv)
  · cases h

/-- Events whose instants lie in the years 0 to 9999 are read back from what is written for them, all
of them in their order and nothing beside them; no record gives an event outside these years. -/
theorem loadBytes?_jsonLines (ports : ServicePorts) :
    (∀ es : List Event, (∀ e ∈ es, e.HasShortYears) →
      ∃ s, (new ports).loadBytes? (Utf8.encode (Event.jsonLines es)) = some s ∧
        s.events = es ∧ s.report = ⟨es.length, 0, 0⟩) ∧
      ∀ r e, Event.parse r = .ok e → e.HasShortYears := by
  refine ⟨fun es h => ⟨es.foldl push (new ports), loadBytes?_written _ h, ?_, ?_⟩,
    fun r e h => Event.parse_hasShortYears h⟩
  · exact foldl_push_events (new ports) es
  · rw [foldl_push_report]
    exact congrArg (Report.mk · 0 0) (Nat.zero_add es.length)

/-- The first and the last instant of these years, line feeds, quotes and controls in the texts, an
empty list of answers and the greatest number. -/
theorem loadBytes?_jsonLines_mixed :
    let first : Timestamp := ⟨-62167219200000000, by decide⟩
    let last : Timestamp := ⟨253402300799999999, by decide⟩
    let answer : Event := ⟨⟨1, first, "10.0.0.1\n", "\"\\\x01", some "é\x7f", none⟩,
      .dns ⟨53, 65535⟩ 18446744073709551615 28 "a\tb" (some [])⟩
    let ended : Event := ⟨⟨2, last, "", "[", none, some "\x7b"⟩, .tcpEnd ⟨0, 1⟩ ⟨first, 7, 0⟩⟩
    (∀ e ∈ [answer, ended], e.HasShortYears) ∧
      (∃ s, (new .standard).loadBytes? (Utf8.encode (Event.jsonLines [answer, ended])) = some s ∧
        s.events = [answer, ended] ∧ s.report = ⟨2, 0, 0⟩) ∧
      Event.parse ended.toRecord = .ok ended ∧ ended.HasShortYears := by
  intro first last answer ended
  have hyears : ∀ e ∈ [answer, ended], e.HasShortYears := by decide
  have hparse : Event.parse ended.toRecord = .ok ended :=
    Event.parse_toRecord (hyears ended (by simp))
  exact ⟨hyears, (loadBytes?_jsonLines .standard).1 [answer, ended] hyears, hparse,
    (loadBytes?_jsonLines .standard).2 ended.toRecord ended hparse⟩

end Store
end FlowLog
