import FlowLog.Proofs.Descriptions
import FlowLog.Proofs.Records

/-! What is wrong with a record. Seven kinds of defects are looked for in a fixed order, the two that
concern the date on either side of the fields of the kind, and the first that the record has is
reported. -/

namespace FlowLog
namespace Record

/-- The field is absent, and all that stand before it in the list are present. -/
def FirstAbsent (r : Record) (fs : List Field) (f : Field) : Prop :=
  ∃ before after, fs = before ++ f :: after ∧ r.get f = none ∧ ∀ g ∈ before, r.has g

theorem firstAbsent_eq_some {r : Record} {fs : List Field} {f : Field} :
    r.firstAbsent fs = some f ↔ r.FirstAbsent fs f := by
  rw [firstAbsent_eq, List.find?_eq_some_iff_append, FirstAbsent]
  constructor
  · rintro ⟨habsent, before, after, hfs, hbefore⟩
    exact ⟨before, after, hfs, by simpa [has] using habsent, by simpa using hbefore⟩
  · rintro ⟨before, after, hfs, habsent, hbefore⟩
    exact ⟨by simp [has, habsent], before, after, hfs, by simpa using hbefore⟩

theorem has_of_forall_not_firstAbsent {r : Record} {fs : List Field}
    (h : ∀ f, ¬r.FirstAbsent fs f) : ∀ f ∈ fs, r.has f := by
  have hnone : r.firstAbsent fs = none :=
    Option.eq_none_iff_forall_ne_some.2 fun f hf => h f (firstAbsent_eq_some.1 hf)
  simpa [firstAbsent_eq, List.find?_eq_none] using hnone

/-- What may be wrong with a record, with its place in the order of looking and how it is
reported. -/
inductive Defect (r : Record) : Nat → EventError → Prop
  | noTag (h : r.get .eventType = none) : Defect r 0 (.missingField none .eventType)
  | unknownTag {s : String} (hs : r.get .eventType = some s) (h : ∀ t : Tag, t.text ≠ s) :
    Defect r 1 (.unknownEventType s)
  | baseField {k : Kind} {f : Field} (hk : r.HasKind k)
    (h : r.FirstAbsent [.eventNumber, .date, .eventType, .sourceIp, .destinationIp] f) :
    Defect r 2 (.missingField (some k) f)
  | dateForm {s : String} (hs : r.get .date = some s) (h : ¬∃ f : Clock.Form, s = f.text) :
    Defect r 3 (.invalidTimestamp s)
  | kindField {k : Kind} {f : Field} (hk : r.HasKind k) (h : r.FirstAbsent k.required f) :
    Defect r 4 (.missingField (some k) f)
  | dateInstant {s : String} (hs : r.get .date = some s) (h : ∀ t : Timestamp, ¬t.WrittenAs s) :
    Defect r 5 (.invalidTimestamp s)
  | creation {s : String} (hk : r.HasKind .tcpEnd) (hs : r.get .creation = some s)
    (h : ∀ t : Timestamp, ¬t.WrittenAs s) : Defect r 6 (.invalidTimestamp s)

/-- The record has none of the defects that are looked for before this place. -/
def SoundBelow (r : Record) (n : Nat) : Prop := ∀ m < n, ∀ d, ¬r.Defect m d

/-- The first of its defects. -/
def Reports (r : Record) (d : EventError) : Prop := ∃ n, r.Defect n d ∧ r.SoundBelow n

section
variable {r : Record} {n : Nat}

theorem exists_reports {d : EventError} (h : r.Defect n d) : ∃ d, r.Reports d := by
  classical
  have hex : ∃ n, ∃ d, r.Defect n d := ⟨n, d, h⟩
  obtain ⟨d, hd⟩ := Nat.find_spec hex
  exact ⟨d, Nat.find hex, hd, fun m hm d hd => Nat.find_min hex hm ⟨d, hd⟩⟩

/-! What each place that is passed says of the record. -/

namespace SoundBelow

theorem exists_hasKind (h : r.SoundBelow n) (hn : 2 ≤ n) : ∃ k, r.HasKind k := by
  refine Event.exists_hasKind (fun hnone => h 0 (by omega) _ (.noTag hnone)) fun s hs => ?_
  by_contra hunknown
  exact h 1 (by omega) _ (.unknownTag hs (not_exists.1 hunknown))

theorem has_base (h : r.SoundBelow n) (hn : 3 ≤ n) : ∀ f ∈ Base.required, r.has f := by
  obtain ⟨k, hk⟩ := h.exists_hasKind (by omega)
  exact has_of_forall_not_firstAbsent fun f hf => h 2 hn _ (.baseField hk hf)

theorem date (h : r.SoundBelow n) (hn : 4 ≤ n) : ∃ f : Clock.Form, r.get .date = some f.text := by
  obtain ⟨s, hs⟩ := exists_get (h.has_base (by omega) .date (by decide))
  by_contra hform
  exact h 3 hn _ (.dateForm hs fun ⟨f, hf⟩ => hform ⟨f, hf ▸ hs⟩)

theorem completeFor {k : Kind} (h : r.SoundBelow n) (hn : 5 ≤ n) (hk : r.HasKind k) :
    r.CompleteFor k :=
  ⟨h.has_base (by omega), h.date (by omega),
    has_of_forall_not_firstAbsent fun f hf => h 4 hn _ (.kindField hk hf)⟩

theorem exists_hasBase (h : r.SoundBelow n) (hn : 6 ≤ n) : ∃ b, r.HasBase b := by
  obtain ⟨k, hk⟩ := h.exists_hasKind (by omega)
  obtain ⟨f, hs⟩ := h.date (by omega)
  obtain ⟨t, ht⟩ : ∃ t : Timestamp, t.WrittenAs f.text := by
    by_contra hnone
    exact h 5 hn _ (.dateInstant hs (not_exists.1 hnone))
  exact (h.completeFor (by omega) hk).exists_hasBase hs ht

theorem exists_describes (h : r.SoundBelow 7) : ∃ e : Event, r.HasKind e.kind ∧ r.Describes e := by
  obtain ⟨k, hk⟩ := h.exists_hasKind (by omega)
  obtain ⟨b, hb⟩ := h.exists_hasBase (by omega)
  obtain ⟨d, rfl, hd⟩ := (h.completeFor (by omega) hk).exists_hasDetail <| by
    rintro rfl s hs
    by_contra hnone
    exact h 6 (by omega) _ (.creation hk hs (not_exists.1 hnone))
  exact ⟨⟨b, d⟩, hk, hb, hd⟩

end SoundBelow
end
end Record

namespace Kind

variable {k : Kind} {r : Record}

theorem demand_of_firstAbsent {fs : List Field} {f : Field} (h : r.FirstAbsent fs f) :
    k.demand fs r = .error (.missingField (some k) f) := by
  rw [demand, Record.firstAbsent_eq_some.2 h]

theorem read_of_baseField {f : Field} (h : r.FirstAbsent Base.required f) :
    k.read r = .error (.missingField (some k) f) := by
  simp only [read, check, demand_of_firstAbsent h, bind, Except.bind]

theorem read_of_dateForm (hbase : ∀ f ∈ Base.required, r.has f) {s : String}
    (hs : r.get .date = some s) (h : ¬∃ f : Clock.Form, s = f.text) :
    k.read r = .error (.invalidTimestamp s) := by
  simp only [read, check, demand_of_has k hbase, checkDate_of_not_form hs h, bind, Except.bind]

theorem read_of_kindField (hbase : ∀ f ∈ Base.required, r.has f) {c : Clock.Form}
    (hs : r.get .date = some c.text) {f : Field} (h : r.FirstAbsent k.required f) :
    k.read r = .error (.missingField (some k) f) := by
  simp only [read, check, demand_of_has k hbase, checkDate_of_form hs ⟨c, rfl⟩,
    demand_of_firstAbsent h, bind, Except.bind]

end Kind

namespace Event

/-- A defect is reported when the record has none that is looked for before. -/
theorem parse_of_defect {r : Record} {n : Nat} {d : EventError} (h : r.Defect n d)
    (hn : r.SoundBelow n) : parse r = .error d := by
  cases h with
  | noTag hnone => exact parse_of_noTag hnone
  | unknownTag hs hunknown => exact parse_of_unknownTag hs hunknown
  | baseField hk hf => rw [parse_of_hasKind hk, Kind.read_of_baseField hf]
  | dateForm hs hform =>
    obtain ⟨k, hk⟩ := hn.exists_hasKind (by omega)
    rw [parse_of_hasKind hk, Kind.read_of_dateForm (hn.has_base le_rfl) hs hform]
  | kindField hk hf =>
    obtain ⟨c, hc⟩ := hn.date le_rfl
    rw [parse_of_hasKind hk, Kind.read_of_kindField (hn.has_base (by omega)) hc hf]
  | dateInstant hs hnone =>
    obtain ⟨k, hk⟩ := hn.exists_hasKind (by omega)
    rw [parse_of_hasKind hk, Kind.read_of_dateInstant (hn.completeFor le_rfl hk) hs hnone]
  | creation hk hs hnone =>
    obtain ⟨b, hb⟩ := hn.exists_hasBase le_rfl
    rw [parse_of_hasKind hk, Kind.read_of_creation (hn.completeFor (by omega) hk) hb hs hnone]

theorem exists_parse_of_sound {r : Record} (h : ∀ n d, ¬r.Defect n d) :
    ∃ e, parse r = .ok e := by
  have hsound : r.SoundBelow 7 := fun n _ => h n
  obtain ⟨e, he⟩ := hsound.exists_describes
  exact ⟨e, parse_eq_ok.2 he⟩

theorem parse_eq_error {r : Record} {d : EventError} : parse r = .error d ↔ r.Reports d := by
  refine ⟨fun h => ?_, fun ⟨n, hd, hn⟩ => parse_of_defect hd hn⟩
  by_cases hsound : ∀ n d, ¬r.Defect n d
  · obtain ⟨e, he⟩ := exists_parse_of_sound hsound
    rw [he] at h
    cases h
  · push Not at hsound
    obtain ⟨n, d', hd'⟩ := hsound
    obtain ⟨first, hfirst⟩ := Record.exists_reports hd'
    obtain ⟨m, hd, hm⟩ := hfirst
    rw [parse_of_defect hd hm] at h
    cases h
    exact ⟨m, hd, hm⟩

/-- A record is refused with the first of its defects and gives an event when it has none, and the
event is the one it describes. Once the checks of a kind pass no field is missing. -/
theorem parse_first_defect (r : Record) :
    (∀ d, parse r = .error d ↔ r.Reports d) ∧
    ((∃ e, parse r = .ok e) ↔ ∀ n d, ¬r.Defect n d) ∧
    (∀ e, parse r = .ok e ↔ r.HasKind e.kind ∧ r.Describes e) ∧
    ∀ k : Kind, k.isValid r → ∀ k' f, k.read r ≠ .error (.missingField k' f) := by
  refine ⟨fun _ => parse_eq_error, ⟨?_, exists_parse_of_sound⟩, fun _ => parse_eq_ok,
    fun k hk => Kind.read_ne_missingField (Kind.isValid_iff.1 hk)⟩
  rintro ⟨e, he⟩ n d hd
  obtain ⟨first, hfirst⟩ := Record.exists_reports hd
  rw [parse_eq_error.2 hfirst] at he
  cases he

/-- The end of a connection that was created on the 31st of June is complete, but no event. -/
theorem parse_first_defect_creation :
    let r := Record.empty
      |>.set .eventNumber (9 : UInt64)
      |>.set .date "2023/06/01 08:00:05.500000"
      |>.set .eventType "end-tcp-connection"
      |>.set .sourceIp "10.1.1.1"
      |>.set .destinationIp "10.1.1.2"
      |>.set .sourcePort (43000 : UInt16)
      |>.set .destinationPort (80 : UInt16)
      |>.set .creation "2023/06/31 08:00:00.000000"
      |>.set .transferredClient (512 : UInt64)
      |>.set .transferredServer (2048 : UInt64)
    Kind.tcpEnd.isValid r ∧ (∀ k f, Kind.tcpEnd.read r ≠ .error (.missingField k f)) ∧
      r.Reports (.invalidTimestamp "2023/06/31 08:00:00.000000") := by
  intro r
  have hvalid : Kind.tcpEnd.isValid r := by decide
  exact ⟨hvalid, (parse_first_defect r).2.2.2 .tcpEnd hvalid,
    ((parse_first_defect r).1 _).1 rfl⟩

end Event
end FlowLog
