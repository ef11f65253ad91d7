import FlowLog.Proofs.Descriptions
import FlowLog.Proofs.Offers

/-! One record, offered as a value or as a record. The look at the tag of an object that comes before
its fields are read never drops an event; it only makes unknown what would be skipped. -/

namespace FlowLog

/-- An object whose tag is a text but none of the seven, whatever else it holds. -/
def Json.Value.HasUnknownTag (v : Json.Value) : Prop :=
  ∃ ms tag, v = .object ms ∧ Json.Members.get? "event-type" ms = some (.string tag) ∧
    ∀ t : Tag, t.text ≠ tag

/-- What a store counts as unknown: values with an unknown tag, read from the object alone or from
the record that the value is. -/
def Json.Value.CountsAsUnknown (v : Json.Value) : Prop :=
  v.HasUnknownTag ∨ ∃ tag, Event.ofValue v = .error (.unknownEventType tag)

theorem Event.ofValue_toValue (r : Record) : ofValue r.toValue.sorted = parse r := by
  rw [ofValue, Record.ofValue_toValue]

theorem Store.unknownTag?_isSome {v : Json.Value} : (unknownTag? v).isSome ↔ v.HasUnknownTag := by
  simp only [Option.isSome_iff_exists, unknownTag?_eq_some, Tag.ofText?_eq_none]
  constructor
  · rintro ⟨tag, hmember, htag⟩
    cases v with
    | object ms => exact ⟨ms, tag, rfl, hmember, htag⟩
    | _ => cases hmember
  · rintro ⟨ms, tag, rfl, hmember, htag⟩
    exact ⟨tag, hmember, htag⟩

namespace Outcome

theorem ofResult_eq_parsed {x : Except EventError Event} {e : Event} :
    ofResult x = parsed e ↔ x = .ok e := by
  cases x with
  | ok => simp [ofResult]
  | error m => cases m <;> simp [ofResult]

theorem ofResult_eq_unknown {x : Except EventError Event} :
    ofResult x = unknown ↔ ∃ tag, x = .error (.unknownEventType tag) := by
  cases x with
  | ok => simp [ofResult]
  | error m => cases m <;> simp [ofResult]

variable {v : Json.Value}

theorem ofValue_eq_parsed {e : Event} : ofValue v = parsed e ↔ Event.ofValue v = .ok e := by
  rw [← ofResult_eq_parsed, ofValue]
  split
  · rename_i hskipped
    rw [hskipped]
    split <;> simp
  · rfl

theorem ofValue_eq_unknown (hv : v.Distinct) : ofValue v = unknown ↔
    v.CountsAsUnknown := by
  rw [Json.Value.CountsAsUnknown, ← Store.unknownTag?_isSome, ← ofResult_eq_unknown]
  constructor
  · intro h
    unfold ofValue at h
    split at h
    · split at h
      · rename_i htag
        exact .inl htag
      · cases h
    · exact .inr h
  · rintro (htag | hresult)
    · obtain ⟨tag, htag⟩ := Option.isSome_iff_exists.1 htag
      exact ofValue_of_unknownTag hv htag
    · rw [ofValue, hresult]

theorem eq_skipped_iff {x : Outcome} : x = skipped ↔ (∀ e, x ≠ parsed e) ∧ x ≠ unknown := by
  cases x <;> simp

end Outcome

namespace Store

/-- What becomes of a record shows in the store. -/
theorem settle_inj {s : Store} {x y : Outcome} : s.settle x = s.settle y ↔ x = y := by
  refine ⟨fun h => ?_, congrArg s.settle⟩
  cases x <;> cases y <;> simp [settle, push, skip, ignore] at h
  · rw [h.1]
  · rfl
  · rfl

theorem ingestValue_eq_iff (s : Store) {v : Json.Value} (hv : v.Distinct) {x : Outcome} :
    s.ingestValue v = (s.settle x, x.event?) ↔ Outcome.ofValue v = x := by
  rw [s.ingestValue_eq hv, Prod.mk.injEq, settle_inj]
  exact ⟨And.left, fun h => ⟨h, congrArg Outcome.event? h⟩⟩

/-- The object that a record is written as has the tag of the record, so the look at it changes
nothing. -/
theorem ingestValue_record (s : Store) (r : Record) :
    s.ingestValue r.toValue.sorted = s.ingest r := by
  cases htag : unknownTag? r.toValue.sorted with
  | none =>
    rw [ingestValue, htag, ingest, ← Event.ofValue_toValue]
  | some tag =>
    obtain ⟨hmember, hnone⟩ := unknownTag?_eq_some.1 htag
    rw [Record.get?_toValue] at hmember
    obtain ⟨x, hx, he⟩ := Option.map_eq_some_iff.1 hmember
    cases he
    rw [ingestValue, htag, ingest, Event.parse_of_unknownTag hx (Tag.ofText?_eq_none.1 hnone)]

/-- A value whose keys are distinct, as they are in all that is read, is retained as the event that it
is on its own. Of the others those are counted as unknown that have an unknown tag, alone or as a
record, and the rest as skipped. A record fares as the object that it is written as. -/
theorem ingest_agrees (s : Store) :
    (∀ v : Json.Value, v.Distinct →
      (∀ e, Event.ofValue v = .ok e ↔ s.ingestValue v =
        ({ s with
          events := s.events ++ [e]
          indices := s.indices.observe s.ports e
          report.parsed := s.report.parsed + 1 }, some e)) ∧
      (v.CountsAsUnknown ↔
        s.ingestValue v = ({ s with report.unknown := s.report.unknown + 1 }, none)) ∧
      ((∀ e, Event.ofValue v ≠ .ok e) ∧ ¬v.CountsAsUnknown ↔
        s.ingestValue v = ({ s with report.skipped := s.report.skipped + 1 }, none))) ∧
    ∀ r : Record, Json.Value.read? r.toValue.compact = some r.toValue.sorted ∧
      s.ingestValue r.toValue.sorted = s.ingest r := by
  refine ⟨fun v hv => ⟨fun e => ?_, ?_, ?_⟩, fun r => ⟨?_, s.ingestValue_record r⟩⟩
  · rw [← Outcome.ofValue_eq_parsed]
    exact (s.ingestValue_eq_iff hv).symm
  · rw [← Outcome.ofValue_eq_unknown hv]
    exact (s.ingestValue_eq_iff hv).symm
  · simp only [ne_eq, ← Outcome.ofValue_eq_unknown hv, ← Outcome.ofValue_eq_parsed]
    exact Outcome.eq_skipped_iff.symm.trans (s.ingestValue_eq_iff hv).symm
  · exact Json.Value.read?_compact (r.toValue_plain 125)

/-- The payload of both is no number, but of the first not even the tag is known. -/
theorem ingest_agrees_of_bad_fields :
    let s := new .standard
    let unknown : Json.Value := .object [("event-type", .string "arp"), ("payload", .string "x")]
    let faulty : Json.Value :=
      .object [("event-type", .string "tcp-data"), ("payload", .string "x")]
    unknown.Distinct ∧ faulty.Distinct ∧
      s.ingestValue unknown = ({ s with report := ⟨0, 0, 1⟩ }, none) ∧
      s.ingestValue faulty = ({ s with report := ⟨0, 1, 0⟩ }, none) := by
  intro s unknown faulty
  have hunknown : unknown.Distinct := by simp [unknown, Json.Value.Distinct]
  have hfaulty : faulty.Distinct := by simp [faulty, Json.Value.Distinct]
  have htag : unknownTag? unknown = some "arp" := rfl
  have hknown : unknownTag? faulty = none := rfl
  have herror : Event.ofValue faulty =
      .error (.malformed (.wrongType (.string "x") (.field .u64))) := rfl
  have harp : unknown.CountsAsUnknown := .inl (unknownTag?_isSome.1 (by rw [htag]; rfl))
  have hskipped : (∀ e, Event.ofValue faulty ≠ .ok e) ∧ ¬faulty.CountsAsUnknown := by
    rw [Json.Value.CountsAsUnknown, ← unknownTag?_isSome, hknown, herror]
    simp
  exact ⟨hunknown, hfaulty, ((ingest_agrees s).1 unknown hunknown).2.1.1 harp,
    ((ingest_agrees s).1 faulty hfaulty).2.2.1 hskipped⟩

end Store
end FlowLog
