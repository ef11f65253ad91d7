import FlowLog.Proofs.Intake
import FlowLog.Proofs.Objects
import Mathlib.Algebra.Ring.Nat
import Mathlib.Data.List.TakeWhile

/-! What becomes of everything that is offered to a store. Each record has one of three outcomes,
which does not depend on the store; the store keeps the parsed events in the order offered, with the
indices over them, and counts the outcomes. Lines of blanks are no records, and a refused file
offers none. -/

namespace FlowLog

/-- What becomes of one record. -/
inductive Outcome
  | parsed (e : Event)
  | skipped
  | unknown
  deriving DecidableEq, Repr

namespace Outcome

def event? : Outcome → Option Event
  | parsed e => some e
  | _ => none

/-- The events among the outcomes. -/
def events (xs : List Outcome) : List Event := xs.filterMap event?

@[simp] theorem events_nil : events [] = [] := rfl
@[simp] theorem events_parsed (e : Event) (xs : List Outcome) :
    events (parsed e :: xs) = e :: events xs := rfl
@[simp] theorem events_skipped (xs : List Outcome) : events (skipped :: xs) = events xs := rfl
@[simp] theorem events_unknown (xs : List Outcome) : events (unknown :: xs) = events xs := rfl

/-- Each outcome is counted once. -/
theorem length_events_add (xs : List Outcome) :
    (events xs).length + xs.count skipped + xs.count unknown = xs.length := by
  induction xs with
  | nil => rfl
  | cons x xs ih => cases x <;> simp <;> omega

def ofResult : Except EventError Event → Outcome
  | .ok e => parsed e
  | .error (.unknownEventType _) => unknown
  | .error _ => skipped

/-- A value that is no event counts as unknown when it has an unknown tag, whatever else is wrong
with it. -/
def ofValue (v : Json.Value) : Outcome :=
  match ofResult (Event.ofValue v) with
  | skipped => if (Store.unknownTag? v).isSome then unknown else skipped
  | x => x

/-- A line of blanks has no outcome. -/
def ofLine? (line : List UInt8) : Option Outcome :=
  if line.all Lines.isBlank then none
  else some (((Json.Value.ofBytes? (Lines.trim line)).map ofValue).getD skipped)

end Outcome

theorem Store.unknownTag?_eq_some {v : Json.Value} {tag : String} :
    unknownTag? v = some tag ↔
      v.get? Field.eventType.name = some (.string tag) ∧ Tag.ofText? tag = none := by
  unfold unknownTag?
  split
  · rename_i t ht
    by_cases hnone : Tag.ofText? t = none
    · simp only [hnone, Option.isNone_none, if_true, Option.some.injEq, ht, Json.Value.string.injEq]
      exact ⟨fun h => ⟨h, h ▸ hnone⟩, fun h => h.1⟩
    · simp [hnone, ht]
      rintro rfl
      exact hnone
  · rename_i hv
    exact ⟨nofun, fun h => absurd h.1 (hv tag)⟩

namespace Outcome

/-- A value with an unknown tag is no event: its record has that tag, if it is a record at all. -/
theorem ofValue_of_unknownTag {v : Json.Value} (hv : v.Distinct) {tag : String}
    (htag : Store.unknownTag? v = some tag) : ofValue v = unknown := by
  obtain ⟨hmember, hnone⟩ := Store.unknownTag?_eq_some.1 htag
  cases v with
  | object ms =>
    cases hrecord : Record.ofValue (.object ms) with
    | error m => simp [ofValue, Event.ofValue, hrecord, ofResult, htag]
    | ok r =>
      have hget : r.get .eventType = some tag := by
        have hdecode := Record.ofValue_get hv hrecord .eventType
        rw [show Json.Members.get? Field.eventType.name ms = _ from hmember] at hdecode
        exact (Except.ok.inj hdecode).symm
      have hparse : Event.parse r = .error (.unknownEventType tag) :=
        Event.parse_of_unknownTag hget (Tag.ofText?_eq_none.1 hnone)
      simp [ofValue, Event.ofValue, hrecord, hparse, ofResult]
  | _ => cases hmember

end Outcome

/-- What may be offered to a store: an event, records, values, lines, and files as bytes or as a
text. An object among the values holds each key once. -/
inductive Offer
  | event (e : Event)
  | record (r : Record)
  | value (v : Json.Value) (distinct : v.Distinct)
  | line (bytes : List UInt8)
  | values (vs : List Json.Value) (distinct : ∀ v ∈ vs, v.Distinct)
  | file (bytes : List UInt8)
  | text (t : String)

/-- The elements of the JSON array that the bytes are. -/
def Json.Value.elements? (bs : List UInt8) : Option (List Json.Value) :=
  match ofBytes? bs with
  | some (.array vs) => some vs
  | _ => none

theorem Json.Value.elements?_eq_some {bs : List UInt8} {vs : List Json.Value} :
    elements? bs = some vs ↔ ofBytes? bs = some (.array vs) := by
  unfold elements?
  split
  · rename_i us hus
    simp [hus]
  · rename_i h
    exact ⟨nofun, fun hvs => absurd hvs (h vs)⟩

/-- The outcomes of the records in a file. -/
def Outcome.ofFile (bs : List UInt8) : List Outcome :=
  if Store.isArray bs then ((Json.Value.elements? bs).getD []).map ofValue
  else (Lines.pieces bs).filterMap ofLine?

namespace Offer

def outcomes : Offer → List Outcome
  | event e => [.parsed e]
  | record r => [.ofResult (Event.parse r)]
  | value v _ => [.ofValue v]
  | line bs => (Outcome.ofLine? bs).toList
  | values vs _ => vs.map .ofValue
  | file bs => Outcome.ofFile bs
  | text t => Outcome.ofFile (Utf8.encode t.toList)

end Offer

theorem Lines.trim_eq_nil {line : List UInt8} : trim line = [] ↔ ∀ b ∈ line, isBlank b := by
  have hhead := List.head?_dropWhile_not isBlank line
  rw [trim, List.reverse_eq_nil_iff, trimStart, List.dropWhile_eq_nil_iff]
  constructor
  · intro h
    cases hrest : line.dropWhile isBlank with
    | nil => exact List.dropWhile_eq_nil_iff.1 hrest
    | cons b rest =>
      have hb : isBlank b = true := h b (by simp [trimStart, hrest])
      simp [hrest, hb] at hhead
  · intro h
    simp [trimStart, List.dropWhile_eq_nil_iff.2 h]

namespace Store

/-- What an outcome does to a store. -/
def settle (s : Store) : Outcome → Store
  | .parsed e => s.push e
  | .skipped => s.skip
  | .unknown => s.ignore

def settleAll (s : Store) (xs : List Outcome) : Store := xs.foldl settle s

@[simp] theorem settleAll_nil (s : Store) : s.settleAll [] = s := rfl
@[simp] theorem settleAll_cons (s : Store) (x : Outcome) (xs : List Outcome) :
    s.settleAll (x :: xs) = (s.settle x).settleAll xs := rfl
@[simp] theorem settleAll_append (s : Store) (xs ys : List Outcome) :
    s.settleAll (xs ++ ys) = (s.settleAll xs).settleAll ys := List.foldl_append

theorem accept_eq (s : Store) (r : Except EventError Event) :
    s.accept r = (s.settle (.ofResult r), (Outcome.ofResult r).event?) := by
  cases r with
  | ok e => rfl
  | error m => cases m <;> rfl

theorem ingestValue_eq (s : Store) {v : Json.Value} (hv : v.Distinct) :
    s.ingestValue v = (s.settle (.ofValue v), (Outcome.ofValue v).event?) := by
  cases htag : unknownTag? v with
  | none =>
    have hsame : Outcome.ofValue v = .ofResult (Event.ofValue v) := by
      unfold Outcome.ofValue
      split <;> simp_all
    rw [ingestValue, htag, hsame]
    exact s.accept_eq _
  | some tag =>
    rw [ingestValue, htag, Outcome.ofValue_of_unknownTag hv htag]
    rfl

theorem ingestLine_eq (s : Store) (line : List UInt8) :
    s.ingestLine line = (s.settleAll (Outcome.ofLine? line).toList,
      (Outcome.ofLine? line).bind Outcome.event?) := by
  by_cases hblank : ∀ b ∈ line, Lines.isBlank b
  · have hnone : Outcome.ofLine? line = none := if_pos (List.all_eq_true.2 hblank)
    rw [hnone, ingestLine]
    exact if_pos (Lines.trim_eq_nil.2 hblank)
  · have hsome : Outcome.ofLine? line = some (((Json.Value.ofBytes? (Lines.trim line)).map
        Outcome.ofValue).getD .skipped) := if_neg fun h => hblank (List.all_eq_true.1 h)
    rw [hsome, ingestLine, if_neg fun h => hblank (Lines.trim_eq_nil.1 h)]
    cases hread : Json.Value.ofBytes? (Lines.trim line) with
    | none => rfl
    | some v =>
      obtain ⟨cs, -, hcs⟩ := Option.bind_eq_some_iff.1 hread
      exact s.ingestValue_eq (Json.Value.read?_distinct hcs)

theorem extend_eq (s : Store) {vs : List Json.Value} (hvs : ∀ v ∈ vs, v.Distinct) :
    s.extend vs = s.settleAll (vs.map .ofValue) := by
  induction vs generalizing s with
  | nil => rfl
  | cons v vs ih =>
    obtain ⟨hv, hvs⟩ := List.forall_mem_cons.1 hvs
    show (s.ingestValue v).1.extend vs = _
    rw [ih _ hvs, s.ingestValue_eq hv]
    rfl

theorem extendLines_eq (s : Store) (ls : List (List UInt8)) :
    s.extendLines ls = s.settleAll (ls.filterMap Outcome.ofLine?) := by
  induction ls generalizing s with
  | nil => rfl
  | cons l ls ih =>
    show (s.ingestLine l).1.extendLines ls = _
    rw [ih, s.ingestLine_eq l]
    cases hl : Outcome.ofLine? l <;> simp [hl]

/-- A file is taken as its outcomes, and refused only as an array that has no elements to give. -/
theorem loadBytes_eq (s : Store) (bs : List UInt8) :
    s.loadBytes bs = (s.settleAll (Outcome.ofFile bs),
      !isArray bs || (Json.Value.elements? bs).isSome) := by
  by_cases harray : isArray bs
  · rw [loadBytes, if_pos harray, Outcome.ofFile, if_pos harray, harray]
    cases hvs : Json.Value.elements? bs with
    | none =>
      split
      · rename_i vs hread
        simp [Json.Value.elements?_eq_some.2 hread] at hvs
      · rfl
    | some vs =>
      have hread := Json.Value.elements?_eq_some.1 hvs
      obtain ⟨cs, -, hcs⟩ := Option.bind_eq_some_iff.1 hread
      rw [hread]
      exact congrArg (·, true) (s.extend_eq (Json.Value.read?_elements_distinct hcs))
  · simp [loadBytes, Outcome.ofFile, harray, extendLines_eq]

/-- What one call leaves. -/
def offer (s : Store) : Offer → Store
  | .event e => s.push e
  | .record r => (s.ingest r).1
  | .value v _ => (s.ingestValue v).1
  | .line bs => (s.ingestLine bs).1
  | .values vs _ => s.extend vs
  | .file bs => (s.loadBytes bs).1
  | .text t => (s.loadText t).1

def offerAll (s : Store) (os : List Offer) : Store := os.foldl offer s

theorem offer_eq (s : Store) (o : Offer) : s.offer o = s.settleAll o.outcomes := by
  cases o with
  | event e => rfl
  | record r => exact congrArg Prod.fst (s.accept_eq (Event.parse r))
  | value v hv => exact congrArg Prod.fst (s.ingestValue_eq hv)
  | line bs => exact congrArg Prod.fst (s.ingestLine_eq bs)
  | values vs hvs => exact s.extend_eq hvs
  | file bs => exact congrArg Prod.fst (s.loadBytes_eq bs)
  | text t => exact congrArg Prod.fst (s.loadBytes_eq (Utf8.encode t.toList))

theorem offerAll_eq (s : Store) (os : List Offer) :
    s.offerAll os = s.settleAll (os.flatMap Offer.outcomes) := by
  induction os generalizing s with
  | nil => rfl
  | cons o os ih =>
    show (s.offer o).offerAll os = _
    rw [ih, s.offer_eq o, List.flatMap_cons, settleAll_append]

/-- All that a store becomes is read off the outcomes. -/
theorem settleAll_eq (s : Store) (xs : List Outcome) :
    s.settleAll xs =
      { events := s.events ++ Outcome.events xs
        indices := (Outcome.events xs).foldl (fun x e => x.observe s.ports e) s.indices
        ports := s.ports
        report := ⟨s.report.parsed + (Outcome.events xs).length,
          s.report.skipped + xs.count .skipped, s.report.unknown + xs.count .unknown⟩ } := by
  induction xs generalizing s with
  | nil => simp
  | cons x xs ih =>
    rw [settleAll_cons, ih]
    cases x <;> simp [settle, push, skip, ignore] <;> omega

theorem offerAll_new (ports : ServicePorts) (os : List Offer) :
    let xs := os.flatMap Offer.outcomes
    (new ports).offerAll os =
      { events := Outcome.events xs
        indices := (Outcome.events xs).foldl (fun x e => x.observe ports e) .empty
        ports := ports
        report := ⟨(Outcome.events xs).length, xs.count .skipped, xs.count .unknown⟩ } := by
  rw [offerAll_eq, settleAll_eq]
  simp [new]

end Store

namespace Offer

/-- How many records a file holds: the elements of an array that is accepted, and else the lines
that are not blank. -/
def fileSize (bs : List UInt8) : Nat :=
  if bs.find? (!Lines.isBlank ·) = some Store.openBracket then
    match Json.Value.ofBytes? bs with
    | some (.array vs) => vs.length
    | _ => 0
  else (Lines.pieces bs).countP fun l => l.any (!Lines.isBlank ·)

/-- How many records are offered. -/
def size : Offer → Nat
  | event _ | record _ | value .. => 1
  | line bs => if bs.any (!Lines.isBlank ·) then 1 else 0
  | values vs _ => vs.length
  | file bs => fileSize bs
  | text t => fileSize (Utf8.encode t.toList)

end Offer

theorem Outcome.ofLine?_isSome (line : List UInt8) :
    (ofLine? line).isSome = line.any (!Lines.isBlank ·) := by
  rw [← List.not_all_eq_any_not, ofLine?]
  cases line.all Lines.isBlank <;> rfl

theorem Store.isArray_iff {bs : List UInt8} :
    isArray bs ↔ bs.find? (!Lines.isBlank ·) = some openBracket := by
  rw [List.find?_not_eq_head?_dropWhile]
  exact decide_eq_true_iff

namespace Offer

theorem length_ofFile (bs : List UInt8) : (Outcome.ofFile bs).length = fileSize bs := by
  unfold Outcome.ofFile fileSize
  by_cases harray : Store.isArray bs
  · rw [if_pos harray, if_pos (Store.isArray_iff.1 harray), List.length_map]
    unfold Json.Value.elements?
    split <;> rfl
  · rw [if_neg harray, if_neg (mt Store.isArray_iff.2 harray), List.length_filterMap_eq_countP]
    exact List.countP_congr fun l _ => by rw [Outcome.ofLine?_isSome]

theorem length_outcomes (o : Offer) : o.outcomes.length = o.size := by
  cases o with
  | event | record | value => rfl
  | line bs =>
    rw [size, ← Outcome.ofLine?_isSome, outcomes]
    cases Outcome.ofLine? bs <;> rfl
  | values vs _ => exact List.length_map _
  | file bs => exact length_ofFile bs
  | text t => exact length_ofFile _

theorem length_flatMap_outcomes (os : List Offer) :
    (os.flatMap outcomes).length = (os.map size).sum := by
  rw [List.length_flatMap]
  exact congrArg List.sum (List.map_congr_left fun o _ => o.length_outcomes)

end Offer

namespace Store

/-- What a call that takes one record has done: it returns the event it added last, or it added
none. -/
structure Answers (s t : Store) (answer : Option Event) : Prop where
  counted : answer.isSome ↔ t.report.parsed = s.report.parsed + 1
  last : ∀ e, answer = some e → t.events = s.events ++ [e]
  failed : answer = none →
    t.events = s.events ∧ t.indices = s.indices ∧ t.report.parsed = s.report.parsed

theorem answers_none (s : Store) : s.Answers s none where
  counted := by simp
  last := fun _ h => nomatch h
  failed := fun _ => ⟨rfl, rfl, rfl⟩

theorem settle_answers (s : Store) (x : Outcome) : s.Answers (s.settle x) x.event? := by
  cases x with
  | parsed e =>
    refine ⟨⟨fun _ => rfl, fun _ => rfl⟩, fun f h => ?_, nofun⟩
    cases h
    rfl
  | skipped | unknown => exact { s.answers_none with }

theorem accept_answers (s : Store) (r : Except EventError Event) :
    s.Answers (s.accept r).1 (s.accept r).2 := by
  rw [accept_eq]
  exact s.settle_answers _

theorem ingestValue_answers (s : Store) (v : Json.Value) :
    s.Answers (s.ingestValue v).1 (s.ingestValue v).2 := by
  unfold ingestValue
  split
  · exact s.accept_answers _
  · exact s.accept_answers _

theorem ingestLine_answers (s : Store) (line : List UInt8) :
    s.Answers (s.ingestLine line).1 (s.ingestLine line).2 := by
  rw [ingestLine_eq]
  cases Outcome.ofLine? line with
  | none => exact s.answers_none
  | some x => exact s.settle_answers x

theorem loadBytes_refused (s : Store) (bs : List UInt8) :
    (s.loadBytes bs).2 = false ↔ bs.find? (!Lines.isBlank ·) = some openBracket ∧
      ∀ vs, Json.Value.ofBytes? bs ≠ some (.array vs) := by
  have hnot : Json.Value.elements? bs = none ↔ ∀ vs, Json.Value.ofBytes? bs ≠ some (.array vs) := by
    simp only [Option.eq_none_iff_forall_ne_some, ne_eq, Json.Value.elements?_eq_some]
  rw [loadBytes_eq, ← isArray_iff, ← hnot]
  simp

/-- A refused file has no outcomes, so it leaves the store as it was. -/
theorem loadBytes_of_refused {s : Store} {bs : List UInt8} (h : (s.loadBytes bs).2 = false) :
    (s.loadBytes bs).1 = s := by
  rw [loadBytes_eq] at h ⊢
  obtain ⟨harray, hnone⟩ : isArray bs ∧ Json.Value.elements? bs = none := by simpa using h
  rw [Outcome.ofFile, if_pos harray, hnone]
  rfl

/-- What a store holds and counts after the offers: the parsed events among the outcomes in the order
offered, the indices over them, and each record offered under its outcome. -/
structure Accounted (ports : ServicePorts) (os : List Offer) (s : Store) : Prop where
  events : s.events = Outcome.events (os.flatMap Offer.outcomes)
  indices : s.indices = s.events.foldl (fun x e => x.observe ports e) .empty
  parsed : s.report.parsed = s.events.length
  skipped : s.report.skipped = (os.flatMap Offer.outcomes).count .skipped
  unknown : s.report.unknown = (os.flatMap Offer.outcomes).count .unknown
  offered : s.report.parsed + s.report.skipped + s.report.unknown = (os.map Offer.size).sum

theorem accounted (ports : ServicePorts) (os : List Offer) :
    ((new ports).offerAll os).Accounted ports os := by
  rw [offerAll_new]
  refine ⟨rfl, rfl, rfl, rfl, rfl, ?_⟩
  rw [← Offer.length_flatMap_outcomes]
  exact Outcome.length_events_add _

/-- After any calls on a new store its counts agree with what was offered, each further record is
answered by the event that it adds, and a file is refused only as an array that is no JSON. -/
theorem offerAll_accounted (ports : ServicePorts) (os : List Offer) :
    let s := (new ports).offerAll os
    s.Accounted ports os ∧
    (∀ r, s.Answers (s.ingest r).1 (s.ingest r).2) ∧
    (∀ v, s.Answers (s.ingestValue v).1 (s.ingestValue v).2) ∧
    (∀ line, s.Answers (s.ingestLine line).1 (s.ingestLine line).2) ∧
    ∀ bs, ((s.loadBytes bs).2 = false ↔ bs.find? (!Lines.isBlank ·) = some openBracket ∧
        ∀ vs, Json.Value.ofBytes? bs ≠ some (.array vs)) ∧
      ((s.loadBytes bs).2 = false → (s.loadBytes bs).1 = s) := by
  intro s
  exact ⟨accounted ports os, fun r => s.accept_answers _, s.ingestValue_answers,
    s.ingestLine_answers, fun bs => ⟨s.loadBytes_refused bs, loadBytes_of_refused⟩⟩

end Store
end FlowLog
