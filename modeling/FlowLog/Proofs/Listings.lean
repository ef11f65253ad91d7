import FlowLog.Proofs.CanonicalRecords
import FlowLog.Proofs.FileMerging
import FlowLog.Proofs.RoundTrip
import Mathlib.Logic.ExistsUnique

/-! Listings of events by tag. Events are selected by the kind that a tag stands for, and name events by
the tag itself; either way those are left that are written with the tag. So each event is in just one
of the seven listings, and one that is read again from its record is in the same. -/

namespace FlowLog

theorem Tag.text_inj {t u : Tag} (h : t.text = u.text) : t = u := by
  have ht := ofText?_text t
  rw [h, ofText?_text u] at ht
  exact (Option.some.inj ht).symm

theorem Kind.ofTag?_text (t : Tag) : ofTag? t.text = some t.kind := by
  rw [ofTag?, Tag.ofText?_text, Option.map_some]

theorem Record.HasKind.unique {r : Record} {k k' : Kind} (h : r.HasKind k) (h' : r.HasKind k') :
    k = k' := by
  obtain ⟨t, ht, rfl⟩ := h
  obtain ⟨u, hu, rfl⟩ := h'
  have htext : t.text = u.text := Option.some.inj (ht.symm.trans hu)
  rw [Tag.text_inj htext]

/-! Reading again. The tag of a name event shows in its record by the list of answers alone, so what is
read from the record has it too. -/

namespace Event

theorem tag_of_toRecord {e : Event} (hdns : e.kind = .dns) :
    e.tag = if e.toRecord.has .responses then .dnsResponse else .dnsQuery := by
  obtain ⟨b, d⟩ := e
  cases d with
  | dns ports transferred queryType domain responses =>
    cases responses <;> simp [tag, Detail.tag, toRecord, Detail.fill, Record.has]
  | _ => cases hdns

theorem tag_of_parse_toRecord {e e' : Event} (h : parse e.toRecord = .ok e') : e'.tag = e.tag := by
  obtain ⟨hkind, hdescribes⟩ := parse_eq_ok.1 h
  have hsame : e.kind = e'.kind := e.toRecord_hasKind.unique hkind
  by_cases hdns : e'.kind = .dns
  · rw [tag_of_toRecord (hsame.trans hdns)]
    exact Detail.tag_of_dns hdns hdescribes.detail
  · exact Detail.tag_eq_of_kind (e.detail.tag_kind.trans hsame) hdns

end Event

namespace Store

/-- The events that are written with a tag. -/
def listed (s : Store) (t : Tag) : List Event := s.events.filter fun e => e.tag = t

theorem mem_listed {s : Store} {t : Tag} {e : Event} :
    e ∈ s.listed t ↔ e ∈ s.events ∧ e.tag = t := by simp [listed]

theorem existsUnique_listed {s : Store} {e : Event} (h : e ∈ s.events) : ∃! t, e ∈ s.listed t :=
  ⟨e.tag, mem_listed.2 ⟨h, rfl⟩, fun _ ht => (mem_listed.1 ht).2.symm⟩

theorem count_listed (s : Store) (t : Tag) (e : Event) :
    (s.listed t).count e = if e.tag = t then s.events.count e else 0 := by
  by_cases htag : e.tag = t
  · rw [if_pos htag]
    exact List.count_filter (by simpa using htag)
  · rw [if_neg htag]
    exact List.count_eq_zero_of_not_mem fun he => htag (mem_listed.1 he).2

/-- An event is counted in the listing for its own tag and in no other. -/
theorem flatMap_listed_perm (s : Store) : (Tag.all.flatMap s.listed).Perm s.events := by
  rw [List.perm_iff_count]
  intro e
  simp only [Tag.all, List.flatMap_cons, List.flatMap_nil, List.append_nil, List.count_append,
    count_listed]
  cases e.tag <;> simp

end Store

/-- The line that is printed for an event. -/
def Event.shown (e : Event) : String :=
  "#" ++ Decimal.text e.base.number.toNat ++ " " ++ ("[" ++ e.base.time.text ++ "] " ++
    placeText e.base.source (e.detail.ports?.map Ports.source) e.base.sourceHost ++ " -> " ++
    placeText e.base.destination (e.detail.ports?.map Ports.destination) e.base.destinationHost ++
    " " ++ e.detail.text) ++ "\n"

/-- What a line shows of the tag. -/
def Tag.mark : Tag → String
  | icmp => "[ICMP]"
  | udp => "[UDP]"
  | dnsQuery => "[DNS query]"
  | dnsResponse => "[DNS response]"
  | tcpBegin => "[Begin TCP connection]"
  | tcpData => "[TCP data]"
  | tcpEnd => "[End TCP connection]"

theorem toList_prefix_append {s t : String} (u : String) (h : s.toList <+: t.toList) :
    s.toList <+: (t ++ u).toList := by
  rw [String.toList_append]
  exact h.trans (List.prefix_append _ _)

theorem Detail.mark_prefix (d : Detail) : d.tag.mark.toList <+: d.text.toList := by
  have hquery : Tag.dnsQuery.mark.toList <+: ("[DNS " ++ "query" ++ "] Query type: ").toList := by
    decide
  have hresponse : Tag.dnsResponse.mark.toList <+:
      ("[DNS " ++ "response" ++ "] Query type: ").toList := by decide
  cases d with
  | dns _ _ _ _ responses =>
    cases responses
    · iterate 6 refine toList_prefix_append _ ?_
      exact hquery
    · iterate 6 refine toList_prefix_append _ ?_
      exact hresponse
  | tcpBegin => exact List.prefix_rfl
  | _ =>
    rw [tag]
    repeat first | decide | refine toList_prefix_append _ ?_

namespace Command

/-- A kind other than that of name events has one tag, so the kind selects what the tag does. -/
theorem select_tag (es : List Event) (t : Tag) :
    select es t.kind t.text = es.filter fun e => e.tag = t := by
  refine List.filter_congr fun e _ => ?_
  split
  · exact decide_eq_decide.2 ⟨Tag.text_inj, congrArg Tag.text⟩
  · rename_i hdns
    apply decide_eq_decide.2
    constructor
    · intro hkind
      exact Detail.tag_eq_of_kind hkind.symm fun h => hdns (hkind.symm.trans h)
    · rintro rfl
      exact e.detail.tag_kind.symm

/-- The outcome of a run that prints the events and leaves the files: a line for each in their order,
with its number, its time, its two ends and what its kind has to say, or that there is none. -/
structure Prints (files : Files) (ws : List String) (es : List Event) (o : Outcome) : Prop where
  exit : o.exit = 0
  error : o.error = none
  warnings : o.warnings = ws
  files : o.files = files
  lines : es ≠ [] → o.stdout = String.join (es.map Event.shown)
  nothing : es = [] → o.stdout = "No matching events.\n"

theorem prints_events (files : Files) (ws : List String) (es : List Event) :
    Prints files ws es ((Outcome.printed files (Listing.events es)).warned ws) where
  exit := rfl
  error := rfl
  warnings := List.append_nil ws
  files := rfl
  lines := fun h => if_neg h
  nothing := fun h => (if_pos h).trans (by decide)

theorem showEvents_tag (files : Files) (s : Store) (t : Tag) :
    showEvents files s (some t.text) = .printed files (Listing.events (s.listed t)) := by
  rw [showEvents, Kind.ofTag?_text]
  exact congrArg (fun es => Outcome.printed files (Listing.events es)) (select_tag s.events t)

/-- What the listings of a store by tag are to the listing of all its events, and to the events that are
read again from the records of those they have. -/
structure ListsByTag (files : Files) (s : Store) : Prop where
  whole : Prints files [] s.events (showEvents files s none)
  tagged : ∀ t : Tag, Prints files [] (s.listed t) (showEvents files s (some t.text))
  marked : ∀ t, ∀ e ∈ s.listed t, t.mark.toList <+: e.detail.text.toList
  once : ∀ e ∈ s.events, ∃! t, e ∈ s.listed t
  together : (Tag.all.flatMap s.listed).Perm s.events
  inOrder : ∀ t, (s.listed t).Sublist s.events
  again : ∀ t, ∀ e ∈ s.listed t, ∀ e', Event.parse e.toRecord = .ok e' → e'.tag = t
  restored : ∀ t, ∀ e ∈ s.listed t, e.HasShortYears → Event.parse e.toRecord = .ok e

theorem listsByTag (files : Files) (s : Store) : ListsByTag files s where
  whole := prints_events files [] s.events
  tagged := fun t => showEvents_tag files s t ▸ prints_events files [] (s.listed t)
  marked := fun _ e he => (Store.mem_listed.1 he).2 ▸ e.detail.mark_prefix
  once := fun _ => Store.existsUnique_listed
  together := s.flatMap_listed_perm
  inOrder := fun _ => List.filter_sublist
  again := fun _ _ he _ h => (Event.tag_of_parse_toRecord h).trans (Store.mem_listed.1 he).2
  restored := fun _ _ _ h => Event.parse_toRecord h

theorem run_events {files : Files} {args : List String} {config input : String}
    {tag : Option String} {s : Store} (h : parse args = .ok ⟨config, .events input tag⟩)
    (hs : openStore? files (Config.load (files.read? config)).servicePorts input = some s) :
    run files args = (showEvents files s tag).warned (warnings s) := by
  rw [run, h]
  simp only [perform, withStore, hs]

theorem parse_toRecord_of_openStore? {files : Files} {ports : ServicePorts} {input : String}
    {s : Store} (h : openStore? files ports input = some s) :
    ∀ e ∈ s.events, Event.parse e.toRecord = .ok e := by
  obtain ⟨bs, -, hload⟩ := Option.bind_eq_some_iff.1 h
  exact fun e he => Event.parse_toRecord (Store.hasShortYears_of_loadBytes? hload e he)

/-- The listing for a tag has the events of a store that are written with it, in their order, so that the
seven listings have each event once; and the tag stays when an event is read again from its record. This
is what a command line for a tag prints of a file, all events of which are read again as they are. -/
theorem run_events_by_tag (files : Files) :
    (∀ s, ListsByTag files s) ∧
    (∀ input, input ≠ "" → ∀ t : Tag,
      parse (eventsLine input t) = .ok ⟨Config.path, .events input (some t.text)⟩) ∧
    ∀ args config input tag s, parse args = .ok ⟨config, .events input tag⟩ →
      openStore? files (Config.load (files.read? config)).servicePorts input = some s →
      (tag = none → Prints files (warnings s) s.events (run files args)) ∧
      (∀ t : Tag, tag = some t.text → Prints files (warnings s) (s.listed t) (run files args)) ∧
      ∀ e ∈ s.events, Event.parse e.toRecord = .ok e := by
  refine ⟨listsByTag files, fun _ => parse_eventsLine, fun args config input tag s h hs =>
    ⟨?_, ?_, parse_toRecord_of_openStore? hs⟩⟩
  · rintro rfl
    rw [run_events h hs]
    exact prints_events files (warnings s) s.events
  · rintro t rfl
    rw [run_events h hs, showEvents_tag]
    exact prints_events files (warnings s) (s.listed t)

/-- A query and its answer, whose list of answers is empty. -/
theorem run_events_by_tag_answer :
    let query : Event := ⟨⟨1, ⟨0, by decide⟩, "10.0.0.2", "10.0.0.1", none, none⟩,
      .dns ⟨5353, 53⟩ 60 1 "a.example" none⟩
    let answer : Event := ⟨⟨2, ⟨7, by decide⟩, "10.0.0.1", "10.0.0.2", none, none⟩,
      .dns ⟨53, 5353⟩ 44 1 "a.example" (some [])⟩
    let bytes := Utf8.encode (Event.jsonLines [query, answer])
    let files := workplace [("a", bytes)]
    let ports := (Config.load (files.read? Config.path)).servicePorts
    let s := [query, answer].foldl Store.push (Store.new ports)
    "a" ≠ "" ∧
    parse (eventsLine "a" .dnsResponse) =
      .ok ⟨Config.path, .events "a" (some Tag.dnsResponse.text)⟩ ∧
    openStore? files ports "a" = some s ∧
    (run files (eventsLine "a" .dnsResponse)).exit = 0 ∧
    (run files (eventsLine "a" .dnsResponse)).stdout =
      "#2 [1970/01/01 00:00:00.000007] 10.0.0.1:53 -> 10.0.0.2:5353 [DNS response] " ++
        "Query type: 1, domain: 'a.example', transferred: 44, responses: \n" ∧
    answer.HasShortYears ∧ Event.parse answer.toRecord = .ok answer := by
  intro query answer bytes files ports s
  have hyears : ∀ e ∈ [query, answer], e.HasShortYears := by decide
  have hparse := (run_events_by_tag files).2.1 "a" (by decide) .dnsResponse
  have hread : files.read? "a" = some bytes :=
    Files.read?_eq_some.2 ⟨["w", "a"], workplace_resolve _ (by decide), rfl, rfl⟩
  have hopen : openStore? files ports "a" = some s := by
    rw [openStore?, hread]
    exact Store.loadBytes?_written _ hyears
  obtain ⟨-, hrun, hagain⟩ := (run_events_by_tag files).2.2 _ _ _ _ s hparse hopen
  have hprints := hrun .dnsResponse rfl
  have hlisted : s.listed .dnsResponse = [answer] := rfl
  have hmem : answer ∈ s.listed .dnsResponse := hlisted ▸ List.mem_singleton.2 rfl
  refine ⟨by decide, hparse, hopen, hprints.exit, ?_, hyears answer (by simp),
    hagain answer (Store.mem_listed.1 hmem).1⟩
  rw [hprints.lines (List.ne_nil_of_mem hmem), hlisted]
  decide +kernel

end Command
end FlowLog
