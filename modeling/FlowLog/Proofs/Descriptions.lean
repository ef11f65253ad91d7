import FlowLog.Proofs.Parsing

/-! What a record describes. A record has a kind by its tag and describes an event when each field of
the event is the record's, the instants by the texts that are written so. A record that passes the
checks of a kind describes an event of this kind, unless its date or its creation names no instant,
and the event that a record gives is the one it describes. -/

namespace FlowLog

/-- A step that succeeds hands its result to the next one. -/
theorem bind_eq_ok {ε α β : Type} {x : Except ε α} {f : α → Except ε β} {b : β} :
    (x >>= f) = .ok b ↔ ∃ a, x = .ok a ∧ f a = .ok b := by
  cases x with
  | error e => exact ⟨nofun, nofun⟩
  | ok a => exact ⟨fun h => ⟨a, rfl, h⟩, fun ⟨_, ha, h⟩ => Except.ok.inj ha ▸ h⟩

/-- The text is the written form of the instant. -/
def Timestamp.WrittenAs (t : Timestamp) (s : String) : Prop :=
  ∃ f : Clock.Form, s = f.text ∧ f.IsInstant ∧ t.clock = f.clock

theorem Timestamp.parse_eq_ok {s : String} {t : Timestamp} : parse s = .ok t ↔ t.WrittenAs s :=
  parse_eq_ok_iff.trans parse?_eq_some_iff

theorem Timestamp.parse_of_none {s : String} (h : ∀ t : Timestamp, ¬t.WrittenAs s) :
    parse s = .error (.invalidTimestamp s) := by
  have hnone : parse? s = none :=
    Option.eq_none_iff_forall_ne_some.2 fun t ht => h t (parse?_eq_some_iff.1 ht)
  rw [parse, hnone]

theorem Tag.ofText?_text (t : Tag) : ofText? t.text = some t := by
  cases t <;> decide

theorem Tag.ofText?_eq_none {s : String} : ofText? s = none ↔ ∀ t : Tag, t.text ≠ s := by
  rw [ofText?, List.find?_eq_none]
  exact ⟨fun h t => by simpa using h t t.mem_all, fun h t _ => by simpa using h t⟩

namespace Record

/-- The tag of the record is one of this kind. -/
def HasKind (r : Record) (k : Kind) : Prop :=
  ∃ t : Tag, r.get .eventType = some t.text ∧ t.kind = k

theorem exists_get {r : Record} {f : Field} (h : r.has f) : ∃ x, r.get f = some x :=
  Option.isSome_iff_exists.1 h

theorem has_of_get {r : Record} {f : Field} {x : f.Carrier} (h : r.get f = some x) : r.has f := by
  rw [has, h]
  rfl

structure HasBase (r : Record) (b : Base) : Prop where
  number : r.get .eventNumber = some b.number
  time : ∃ s, r.get .date = some s ∧ b.time.WrittenAs s
  source : r.get .sourceIp = some b.source
  destination : r.get .destinationIp = some b.destination
  sourceHost : r.get .sourceHostname = b.sourceHost
  destinationHost : r.get .destinationHostname = b.destinationHost

def HasPorts (r : Record) (p : Ports) : Prop :=
  r.get .sourcePort = some p.source ∧ r.get .destinationPort = some p.destination

def HasDetail (r : Record) : Detail → Prop
  | .icmp type code transferred =>
    r.get .icmpType = some type ∧ r.get .icmpCode = some code ∧
      r.get .transferred = some transferred
  | .udp ports transferred => r.HasPorts ports ∧ r.get .transferred = some transferred
  | .dns ports transferred queryType domain responses =>
    r.HasPorts ports ∧ r.get .transferred = some transferred ∧
      r.get .queryType = some queryType ∧ r.get .domain = some domain ∧
      r.get .responses = responses
  | .tcpBegin ports => r.HasPorts ports
  | .tcpData ports payload => r.HasPorts ports ∧ r.get .payload = some payload
  | .tcpEnd ports closing =>
    r.HasPorts ports ∧ (∃ s, r.get .creation = some s ∧ closing.creation.WrittenAs s) ∧
      r.get .transferredClient = some closing.client ∧
      r.get .transferredServer = some closing.server

/-- Every field of the event is the record's. -/
structure Describes (r : Record) (e : Event) : Prop where
  base : r.HasBase e.base
  detail : r.HasDetail e.detail

/-- What the checks of a kind ask of a record. -/
structure CompleteFor (r : Record) (k : Kind) : Prop where
  base : ∀ f ∈ Base.required, r.has f
  date : ∃ f : Clock.Form, r.get .date = some f.text
  detail : ∀ f ∈ k.required, r.has f

theorem HasDetail.has {r : Record} {d : Detail} (h : r.HasDetail d) :
    ∀ f ∈ d.kind.required, r.has f := by
  cases d with
  | tcpEnd ports closing =>
    obtain ⟨hports, ⟨s, hs, -⟩, hclient, hserver⟩ := h
    simp [Detail.kind, Kind.required, Record.has, hports.1, hports.2, hs, hclient, hserver]
  | _ =>
    simp only [HasDetail, HasPorts] at h
    simp [Detail.kind, Kind.required, Record.has, h]

theorem Describes.completeFor {r : Record} {e : Event} (h : r.Describes e)
    (htag : r.has .eventType) : r.CompleteFor e.kind := by
  obtain ⟨s, hs, f, rfl, -⟩ := h.base.time
  refine ⟨?_, ⟨f, hs⟩, h.detail.has⟩
  simp only [Base.required, List.forall_mem_cons, List.not_mem_nil, false_imp_iff, implies_true,
    and_true]
  exact ⟨has_of_get h.base.number, has_of_get hs, htag, has_of_get h.base.source,
    has_of_get h.base.destination⟩

theorem HasKind.has {r : Record} {k : Kind} (h : r.HasKind k) : r.has .eventType := by
  obtain ⟨t, ht, -⟩ := h
  exact has_of_get ht

/-! What a complete record holds, as an event has it. -/

section
variable {r : Record} {k : Kind}

theorem CompleteFor.exists_hasBase (h : r.CompleteFor k) {s : String} {t : Timestamp}
    (hs : r.get .date = some s) (ht : t.WrittenAs s) : ∃ b, r.HasBase b := by
  obtain ⟨number, hnumber⟩ := exists_get (h.base .eventNumber (by decide))
  obtain ⟨source, hsource⟩ := exists_get (h.base .sourceIp (by decide))
  obtain ⟨destination, hdestination⟩ := exists_get (h.base .destinationIp (by decide))
  exact ⟨⟨number, t, source, destination, r.get .sourceHostname, r.get .destinationHostname⟩,
    hnumber, ⟨s, hs, ht⟩, hsource, hdestination, rfl, rfl⟩

theorem CompleteFor.exists_hasPorts (h : r.CompleteFor k) (hsource : .sourcePort ∈ k.required)
    (hdestination : .destinationPort ∈ k.required) : ∃ p, r.HasPorts p := by
  obtain ⟨source, hsource⟩ := exists_get (h.detail _ hsource)
  obtain ⟨destination, hdestination⟩ := exists_get (h.detail _ hdestination)
  exact ⟨⟨source, destination⟩, hsource, hdestination⟩

theorem CompleteFor.exists_hasDetail (h : r.CompleteFor k)
    (hcreation : k = .tcpEnd → ∀ s, r.get .creation = some s → ∃ t : Timestamp, t.WrittenAs s) :
    ∃ d : Detail, d.kind = k ∧ r.HasDetail d := by
  have hget {f : Field} (hf : f ∈ k.required) : ∃ x, r.get f = some x := exists_get (h.detail f hf)
  cases k with
  | icmp =>
    obtain ⟨type, htype⟩ := hget (f := .icmpType) (by decide)
    obtain ⟨code, hcode⟩ := hget (f := .icmpCode) (by decide)
    obtain ⟨transferred, htransferred⟩ := hget (f := .transferred) (by decide)
    exact ⟨.icmp type code transferred, rfl, htype, hcode, htransferred⟩
  | udp =>
    obtain ⟨ports, hports⟩ := h.exists_hasPorts (by decide) (by decide)
    obtain ⟨transferred, htransferred⟩ := hget (f := .transferred) (by decide)
    exact ⟨.udp ports transferred, rfl, hports, htransferred⟩
  | dns =>
    obtain ⟨ports, hports⟩ := h.exists_hasPorts (by decide) (by decide)
    obtain ⟨transferred, htransferred⟩ := hget (f := .transferred) (by decide)
    obtain ⟨queryType, hqueryType⟩ := hget (f := .queryType) (by decide)
    obtain ⟨domain, hdomain⟩ := hget (f := .domain) (by decide)
    exact ⟨.dns ports transferred queryType domain (r.get .responses), rfl, hports, htransferred,
      hqueryType, hdomain, rfl⟩
  | tcpBegin =>
    obtain ⟨ports, hports⟩ := h.exists_hasPorts (by decide) (by decide)
    exact ⟨.tcpBegin ports, rfl, hports⟩
  | tcpData =>
    obtain ⟨ports, hports⟩ := h.exists_hasPorts (by decide) (by decide)
    obtain ⟨payload, hpayload⟩ := hget (f := .payload) (by decide)
    exact ⟨.tcpData ports payload, rfl, hports, hpayload⟩
  | tcpEnd =>
    obtain ⟨ports, hports⟩ := h.exists_hasPorts (by decide) (by decide)
    obtain ⟨s, hs⟩ := hget (f := .creation) (by decide)
    obtain ⟨t, ht⟩ := hcreation rfl s hs
    obtain ⟨client, hclient⟩ := hget (f := .transferredClient) (by decide)
    obtain ⟨server, hserver⟩ := hget (f := .transferredServer) (by decide)
    exact ⟨.tcpEnd ports ⟨t, client, server⟩, rfl, hports, ⟨s, hs, ht⟩, hclient, hserver⟩

end
end Record

namespace Kind

variable {k : Kind} {r : Record}

theorem demand_of_has {fs : List Field} (k : Kind) (h : ∀ f ∈ fs, r.has f) :
    k.demand fs r = .ok () := by
  have hnone : r.firstAbsent fs = none := by
    rw [Record.firstAbsent_eq]
    exact List.find?_eq_none.2 fun f hf => by simp [h f hf]
  rw [demand, hnone]

theorem need_of_get {f : Field} {x : f.Carrier} (k : Kind) (h : r.get f = some x) :
    k.need f r = .ok x := by
  rw [need, h]

theorem demand_eq_ok {fs : List Field} : k.demand fs r = .ok () ↔ ∀ f ∈ fs, r.has f := by
  refine ⟨fun h => ?_, demand_of_has k⟩
  unfold demand at h
  split at h
  · rename_i hnone
    simpa [Record.firstAbsent_eq, List.find?_eq_none] using hnone
  · cases h

theorem checkDate_of_form {s : String} (hs : r.get .date = some s)
    (h : ∃ f : Clock.Form, s = f.text) : k.checkDate r = .ok () := by
  have hdate := need_of_get k hs
  simp only [checkDate, hdate, bind, Except.bind, Timestamp.wellFormed_iff.2 h, if_true]

theorem checkDate_of_not_form {s : String} (hs : r.get .date = some s)
    (h : ¬∃ f : Clock.Form, s = f.text) : k.checkDate r = .error (.invalidTimestamp s) := by
  have hdate := need_of_get k hs
  have hform : Timestamp.wellFormed s = false :=
    Bool.eq_false_iff.2 fun hw => h (Timestamp.wellFormed_iff.1 hw)
  simp only [checkDate, hdate, bind, Except.bind, hform, Bool.false_eq_true, if_false]

theorem check_eq_ok : k.check r = .ok () ↔ r.CompleteFor k := by
  simp only [check, bind_eq_ok]
  constructor
  · rintro ⟨⟨⟩, hbase, ⟨⟩, hdate, hdetail⟩
    rw [demand_eq_ok] at hbase hdetail
    obtain ⟨s, hs⟩ := Record.exists_get (hbase .date (by decide))
    by_cases hform : ∃ f : Clock.Form, s = f.text
    · obtain ⟨f, rfl⟩ := hform
      exact ⟨hbase, ⟨f, hs⟩, hdetail⟩
    · rw [checkDate_of_not_form hs hform] at hdate
      cases hdate
  · rintro ⟨hbase, ⟨f, hs⟩, hdetail⟩
    exact ⟨(), demand_of_has k hbase, (), checkDate_of_form hs ⟨f, rfl⟩, demand_of_has k hdetail⟩

theorem isValid_iff : k.isValid r ↔ r.CompleteFor k := by
  rw [← check_eq_ok, isValid]
  cases k.check r <;> simp [Except.isOk, Except.toBool]

theorem readBase_of_hasBase {b : Base} (h : r.HasBase b) : k.readBase r = .ok b := by
  obtain ⟨s, hs, ht⟩ := h.time
  have htime : Timestamp.parse s = .ok b.time := Timestamp.parse_eq_ok.2 ht
  rw [readBase, need_of_get k hs, need_of_get k h.number, need_of_get k h.source,
    need_of_get k h.destination, h.sourceHost, h.destinationHost]
  simp only [bind, Except.bind, htime]

theorem readDetail_of_hasDetail {d : Detail} (h : r.HasDetail d) :
    d.kind.readDetail r = .ok d := by
  cases d with
  | tcpEnd ports closing =>
    obtain ⟨hports, ⟨s, hs, ht⟩, hclient, hserver⟩ := h
    have hcreation : Timestamp.parse s = .ok closing.creation := Timestamp.parse_eq_ok.2 ht
    simp [Detail.kind, readDetail, readPorts, need, bind, Except.bind, hports.1, hports.2, hs,
      hcreation, hclient, hserver]
  | _ =>
    simp only [Record.HasDetail, Record.HasPorts] at h
    simp [Detail.kind, readDetail, readPorts, need, bind, Except.bind, h]

theorem read_of_describes {e : Event} (htag : r.has .eventType) (h : r.Describes e) :
    e.kind.read r = .ok e := by
  have hcheck : e.kind.check r = .ok () := check_eq_ok.2 (h.completeFor htag)
  have hdetail : e.kind.readDetail r = .ok e.detail := readDetail_of_hasDetail h.detail
  simp only [read, hcheck, readBase_of_hasBase h.base, hdetail, bind, Except.bind]

/-! Only a date or a creation that names no instant is left to be refused in a complete record. -/

theorem read_of_dateInstant (hr : r.CompleteFor k) {s : String} (hs : r.get .date = some s)
    (h : ∀ t : Timestamp, ¬t.WrittenAs s) : k.read r = .error (.invalidTimestamp s) := by
  obtain ⟨number, hnumber⟩ := Record.exists_get (hr.base .eventNumber (by decide))
  have hread : k.readBase r = .error (.invalidTimestamp s) := by
    simp only [readBase, need_of_get k hs, need_of_get k hnumber, Timestamp.parse_of_none h, bind,
      Except.bind]
  simp only [read, check_eq_ok.2 hr, hread, bind, Except.bind]

theorem read_of_creation (hr : r.CompleteFor tcpEnd) {b : Base} (hb : r.HasBase b) {s : String}
    (hs : r.get .creation = some s) (h : ∀ t : Timestamp, ¬t.WrittenAs s) :
    tcpEnd.read r = .error (.invalidTimestamp s) := by
  obtain ⟨ports, hsource, hdestination⟩ := hr.exists_hasPorts (by decide) (by decide)
  have hdetail : tcpEnd.readDetail r = .error (.invalidTimestamp s) := by
    simp [readDetail, readPorts, need, bind, Except.bind, hs, hsource, hdestination,
      Timestamp.parse_of_none h]
  simp only [read, check_eq_ok.2 hr, readBase_of_hasBase hb, hdetail, bind, Except.bind]

theorem read_of_completeFor (hr : r.CompleteFor k) :
    (∃ e : Event, e.kind = k ∧ r.Describes e) ∨ ∃ s, k.read r = .error (.invalidTimestamp s) := by
  obtain ⟨s, hs⟩ := Record.exists_get (hr.base .date (by decide))
  by_cases ht : ∃ t : Timestamp, t.WrittenAs s
  · obtain ⟨t, ht⟩ := ht
    obtain ⟨b, hb⟩ := hr.exists_hasBase hs ht
    by_cases hc : k = .tcpEnd → ∀ c, r.get .creation = some c → ∃ t : Timestamp, t.WrittenAs c
    · obtain ⟨d, hkind, hd⟩ := hr.exists_hasDetail hc
      exact .inl ⟨⟨b, d⟩, hkind, hb, hd⟩
    · push Not at hc
      obtain ⟨rfl, c, hc, hnone⟩ := hc
      exact .inr ⟨c, read_of_creation hr hb hc hnone⟩
  · exact .inr ⟨s, read_of_dateInstant hr hs (not_exists.1 ht)⟩

/-- What is read for a kind is an event of this kind that the record describes. -/
theorem read_eq_ok {e : Event} :
    k.read r = .ok e ↔ e.kind = k ∧ r.has .eventType ∧ r.Describes e := by
  constructor
  · intro h
    obtain ⟨⟨⟩, hcheck, -⟩ := bind_eq_ok.1 h
    have hr := check_eq_ok.1 hcheck
    have htag : r.has .eventType := hr.base .eventType (by decide)
    rcases read_of_completeFor hr with ⟨e', rfl, he'⟩ | ⟨s, herror⟩
    · rw [read_of_describes htag he'] at h
      cases h
      exact ⟨rfl, htag, he'⟩
    · rw [herror] at h
      cases h
  · rintro ⟨rfl, htag, he⟩
    exact read_of_describes htag he

theorem read_ne_missingField (hr : r.CompleteFor k) (k' : Option Kind) (f : Field) :
    k.read r ≠ .error (.missingField k' f) := by
  rcases read_of_completeFor hr with ⟨e, rfl, he⟩ | ⟨s, herror⟩
  · rw [read_of_describes (hr.base .eventType (by decide)) he]
    nofun
  · rw [herror]
    nofun

end Kind

namespace Event

variable {r : Record}

theorem parse_of_hasKind {k : Kind} (h : r.HasKind k) : parse r = k.read r := by
  obtain ⟨t, ht, rfl⟩ := h
  have hkind : Kind.ofRecord r = .ok t.kind := by
    rw [Kind.ofRecord, ht]
    simp only [Kind.ofTag?, Tag.ofText?_text, Option.map_some]
  rw [parse, hkind]
  rfl

theorem parse_of_noTag (h : r.get .eventType = none) :
    parse r = .error (.missingField none .eventType) := by
  rw [parse, Kind.ofRecord, h]
  rfl

theorem parse_of_unknownTag {s : String} (hs : r.get .eventType = some s)
    (h : ∀ t : Tag, t.text ≠ s) : parse r = .error (.unknownEventType s) := by
  have hnone : Kind.ofTag? s = none := by
    rw [Kind.ofTag?, Tag.ofText?_eq_none.2 h, Option.map_none]
  rw [parse, Kind.ofRecord, hs]
  simp only [hnone]
  rfl

theorem exists_hasKind (hsome : r.get .eventType ≠ none)
    (hknown : ∀ s, r.get .eventType = some s → ∃ t : Tag, t.text = s) : ∃ k, r.HasKind k := by
  obtain ⟨s, hs⟩ := Option.ne_none_iff_exists'.1 hsome
  obtain ⟨t, rfl⟩ := hknown s hs
  exact ⟨t.kind, t, hs, rfl⟩

/-- A record gives exactly the event that it describes. -/
theorem parse_eq_ok {e : Event} : parse r = .ok e ↔ r.HasKind e.kind ∧ r.Describes e := by
  constructor
  · intro h
    obtain ⟨k, hk⟩ : ∃ k, r.HasKind k := by
      apply exists_hasKind
      · intro hnone
        rw [parse_of_noTag hnone] at h
        cases h
      · intro s hs
        by_contra hunknown
        rw [parse_of_unknownTag hs (not_exists.1 hunknown)] at h
        cases h
    rw [parse_of_hasKind hk] at h
    obtain ⟨rfl, -, he⟩ := Kind.read_eq_ok.1 h
    exact ⟨hk, he⟩
  · rintro ⟨hk, he⟩
    rw [parse_of_hasKind hk, Kind.read_of_describes hk.has he]

end Event
end FlowLog
