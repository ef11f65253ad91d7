import FlowLog.Proofs.Events

/-! The canonical form of a record. Records that describe the same event agree on every field of its
kind, since an instant has one text. The record that an event is written to is one of them, holds
nothing else, and is tagged anew: a name query by whether it has answers. -/

namespace FlowLog

theorem Timestamp.WrittenAs.text_eq {t : Timestamp} {s : String} (h : t.WrittenAs s) :
    t.text = s := by
  obtain ⟨f, rfl, -, hclock⟩ := h
  exact text_eq_of_clock hclock

/-- The fields of every event but for the tag. -/
def Base.fields : List Field :=
  [.eventNumber, .date, .sourceIp, .destinationIp, .sourceHostname, .destinationHostname]

namespace Kind

/-- The fields of a kind beyond those of every event. -/
def ownFields : Kind → List Field
  | dns => dns.required ++ [.responses]
  | k => k.required

def fields (k : Kind) : List Field := Base.fields ++ k.ownFields

end Kind

namespace Record

variable {r r' : Record}

theorem HasBase.get_date {b : Base} (h : r.HasBase b) : r.get .date = some b.time.text := by
  obtain ⟨s, hs, ht⟩ := h.time
  rw [hs, ht.text_eq]

theorem HasBase.get_eq {b : Base} (h : r.HasBase b) (h' : r'.HasBase b) :
    ∀ f ∈ Base.fields, r.get f = r'.get f := by
  simp [Base.fields, h.number, h'.number, h.get_date, h'.get_date, h.source, h'.source,
    h.destination, h'.destination, h.sourceHost, h'.sourceHost, h.destinationHost,
    h'.destinationHost]

theorem HasDetail.get_eq {d : Detail} (h : r.HasDetail d) (h' : r'.HasDetail d) :
    ∀ f ∈ d.kind.ownFields, r.get f = r'.get f := by
  cases d with
  | tcpEnd ports closing =>
    obtain ⟨hports, ⟨s, hs, ht⟩, hclient, hserver⟩ := h
    obtain ⟨hports', ⟨s', hs', ht'⟩, hclient', hserver'⟩ := h'
    have htext : s = s' := ht.text_eq.symm.trans ht'.text_eq
    simp [Detail.kind, Kind.ownFields, Kind.required, hports.1, hports.2, hports'.1, hports'.2, hs,
      hs', htext, hclient, hclient', hserver, hserver']
  | _ =>
    simp only [HasDetail, HasPorts] at h h'
    simp [Detail.kind, Kind.ownFields, Kind.required, h, h']

/-- Records that describe one event differ only in the tag and in fields that are not of its
kind. -/
theorem Describes.get_eq {e : Event} (h : r.Describes e) (h' : r'.Describes e) :
    ∀ f ∈ e.kind.fields, r.get f = r'.get f :=
  List.forall_mem_append.2 ⟨h.base.get_eq h'.base, h.detail.get_eq h'.detail⟩

end Record

/-! What the record of an event does not hold. -/

theorem Base.toRecord_get_of_ne {b : Base} {tag : Tag} {f : Field}
    (h : ∀ g ∈ .eventType :: Base.fields, g ≠ f) : (b.toRecord tag).get f = none := by
  simp only [Base.fields, List.forall_mem_cons] at h
  simp [Base.toRecord, Record.set, h]

theorem Detail.fill_get_of_ne {d : Detail} {r : Record} {f : Field}
    (h : ∀ g ∈ d.kind.ownFields, g ≠ f) : (d.fill r).get f = r.get f := by
  cases d <;>
    simp only [Detail.kind, Kind.ownFields, Kind.required, List.cons_append, List.nil_append,
      List.forall_mem_cons] at h <;>
    simp [Detail.fill, Ports.fill, Record.set, h]

namespace Event

theorem toRecord_get_of_notMem {e : Event} {f : Field} (hf : f ∉ e.kind.fields)
    (htag : f ≠ .eventType) : e.toRecord.get f = none := by
  have hne : ∀ g ∈ e.kind.fields, g ≠ f := List.forall_mem_ne'.2 hf
  obtain ⟨hbase, hdetail⟩ := List.forall_mem_append.1 hne
  rw [toRecord, Detail.fill_get_of_ne hdetail]
  exact Base.toRecord_get_of_ne (List.forall_mem_cons.2 ⟨htag.symm, hbase⟩)

end Event

namespace Detail

/-- A kind other than that of name queries has a single tag. -/
theorem tag_eq_of_kind {d : Detail} {t : Tag} (h : t.kind = d.kind) (hdns : d.kind ≠ .dns) :
    d.tag = t := by
  cases d <;> cases t <;> simp_all [kind, Tag.kind, tag]

theorem tag_of_dns {d : Detail} {r : Record} (hdns : d.kind = .dns) (h : r.HasDetail d) :
    d.tag = if r.has .responses then .dnsResponse else .dnsQuery := by
  cases d with
  | dns ports transferred queryType domain responses =>
    obtain ⟨-, -, -, -, hresponses⟩ := h
    rw [Record.has, hresponses]
    cases responses <;> rfl
  | _ => cases hdns

end Detail

namespace Event

/-- The record that an event is written to is the canonical form of each that it is read from: the
fields of its kind as they were, no others, and for a name query the tag that its answers ask for,
whichever of the two the record had. It is read as the same event. -/
theorem toRecord_canonical {r : Record} {e : Event} (h : parse r = .ok e) :
    (∀ f ∈ e.kind.fields, e.toRecord.get f = r.get f) ∧
    (∀ f ∉ e.kind.fields, f ≠ .eventType → e.toRecord.get f = none) ∧
    (e.kind ≠ .dns → e.toRecord.get .eventType = r.get .eventType) ∧
    (e.kind = .dns → e.toRecord.get .eventType =
      some (if r.has .responses then "dns-response" else "dns-query")) ∧
    parse e.toRecord = .ok e := by
  have hyears : e.HasShortYears := parse_hasShortYears h
  obtain ⟨⟨t, ht, hkind⟩, hdescribes⟩ := parse_eq_ok.1 h
  refine ⟨(describes_toRecord hyears).get_eq hdescribes, fun _ => toRecord_get_of_notMem,
    fun hdns => ?_, fun hdns => ?_, parse_toRecord hyears⟩
  · rw [toRecord_eventType, ht, tag, Detail.tag_eq_of_kind hkind hdns]
  · rw [toRecord_eventType, tag, Detail.tag_of_dns hdns hdescribes.detail]
    split <;> rfl

/-- A query that is tagged as a response and has the type of an echo. -/
theorem toRecord_canonical_query :
    let r := Record.empty
      |>.set .eventNumber (4 : UInt64)
      |>.set .date "2023/06/01 08:00:00.000000"
      |>.set .eventType "dns-response"
      |>.set .sourceIp "10.1.1.1"
      |>.set .destinationIp "10.1.1.2"
      |>.set .icmpType (8 : UInt8)
      |>.set .sourcePort (43000 : UInt16)
      |>.set .destinationPort (53 : UInt16)
      |>.set .transferred (64 : UInt64)
      |>.set .queryType (1 : UInt16)
      |>.set .domain "example.org"
    ∃ e : Event, parse r = .ok e ∧ parse e.toRecord = .ok e ∧
      e.toRecord.get .domain = some "example.org" ∧ e.toRecord.get .icmpType = none ∧
      e.toRecord.get .eventType = some "dns-query" := by
  intro r
  obtain ⟨e, he, hkind⟩ : ∃ e, parse r = .ok e ∧ e.kind = .dns := ⟨_, rfl, rfl⟩
  obtain ⟨hfields, habsent, -, htag, hparse⟩ := toRecord_canonical he
  rw [hkind] at hfields habsent
  exact ⟨e, he, hparse, hfields .domain (by decide), habsent .icmpType (by decide) (by decide),
    htag hkind⟩

end Event
end FlowLog
