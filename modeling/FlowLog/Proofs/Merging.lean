import FlowLog.Merge
import FlowLog.Proofs.StableSort

/-! Merging is sorting. The queue holds the heads of all streams that are not empty, so what is taken
is what a merge of the first stream with all the others would give next; and such a merge of
streams that are in order of time sorts their concatenation, with no change of places among events
of one time. -/

namespace FlowLog

namespace Waiting

def rank (w : Waiting) : Timestamp ×ₗ Nat := toLex (w.time, w.stream)

theorem rank_injective : Function.Injective rank := by
  rintro ⟨t, i⟩ ⟨u, j⟩ h
  obtain ⟨rfl, rfl⟩ := Prod.mk.inj (toLex.injective h)
  rfl

theorem leads_iff {a b : Waiting} : a.leads b ↔ a.rank ≤ b.rank := by
  simp [leads, rank, Prod.Lex.toLex_le_toLex]

theorem mem_insert {v w : Waiting} {queue : List Waiting} :
    v ∈ insert w queue ↔ v = w ∨ v ∈ queue := by
  induction queue with
  | nil => simp [insert]
  | cons u queue ih =>
    rw [insert]
    split
    · simp
    · rw [List.mem_cons, ih, List.mem_cons]
      exact or_left_comm

theorem mem_enqueue {v : Waiting} {i : Nat} {es : List Event} {queue : List Waiting} :
    v ∈ enqueue i es queue ↔
      (v.stream = i ∧ es.head?.map Event.time = some v.time) ∨ v ∈ queue := by
  cases es with
  | nil => simp [enqueue]
  | cons e es =>
    obtain ⟨t, j⟩ := v
    simp [enqueue, mem_insert, and_comm, eq_comm]

/-- Each head waits before all that follow it. -/
def Sorted (queue : List Waiting) : Prop := queue.Pairwise fun a b => a.rank < b.rank

theorem insert_sorted {w : Waiting} {queue : List Waiting} (h : Sorted queue) (hw : w ∉ queue) :
    Sorted (insert w queue) := by
  induction queue with
  | nil => exact List.pairwise_singleton _ _
  | cons u queue ih =>
    obtain ⟨hfirst, hrest⟩ := List.pairwise_cons.1 h
    obtain ⟨hne, hw⟩ := not_or.1 (List.mem_cons.not.1 hw)
    rw [insert]
    split
    · rename_i hleads
      have hlt : w.rank < u.rank :=
        lt_of_le_of_ne (leads_iff.1 hleads) fun he => hne (rank_injective he)
      refine List.pairwise_cons.2 ⟨fun v hv => ?_, h⟩
      rcases List.mem_cons.1 hv with rfl | hv
      · exact hlt
      · exact hlt.trans (hfirst v hv)
    · rename_i hleads
      refine List.pairwise_cons.2 ⟨fun v hv => ?_, ih hrest hw⟩
      rcases mem_insert.1 hv with rfl | hv
      · exact not_le.1 (mt leads_iff.2 hleads)
      · exact hfirst v hv

theorem enqueue_sorted {i : Nat} {queue : List Waiting} (h : Sorted queue)
    (hi : ∀ w ∈ queue, w.stream ≠ i) (es : List Event) : Sorted (enqueue i es queue) := by
  cases es with
  | nil => exact h
  | cons e es => exact insert_sorted h fun hmem => hi _ hmem rfl

end Waiting

def headTime? (unread : List (List Event)) (i : Nat) : Option Timestamp :=
  (unread[i]?.bind List.head?).map Event.time

theorem headTime?_set_self {unread : List (List Event)} {i : Nat} (h : i < unread.length)
    (es : List Event) : headTime? (unread.set i es) i = es.head?.map Event.time := by
  rw [headTime?, List.getElem?_set_self h]
  rfl

theorem headTime?_set_ne {unread : List (List Event)} {i j : Nat} (h : i ≠ j) (es : List Event) :
    headTime? (unread.set i es) j = headTime? unread j := by
  rw [headTime?, List.getElem?_set_ne h]
  rfl

structure Queued (unread : List (List Event)) (queue : List Waiting) : Prop where
  sorted : Waiting.Sorted queue
  mem_iff : ∀ w, w ∈ queue ↔ headTime? unread w.stream = some w.time

namespace Queued

variable {unread : List (List Event)} {w : Waiting} {queue : List Waiting}

theorem stream_ne (h : Queued unread (w :: queue)) : ∀ v ∈ queue, v.stream ≠ w.stream := by
  intro v hv hstream
  have htime : v.time = w.time := by
    have hvhead := (h.mem_iff v).1 (List.mem_cons_of_mem w hv)
    rw [hstream, (h.mem_iff w).1 List.mem_cons_self] at hvhead
    exact (Option.some.inj hvhead).symm
  have hlt : w.rank < v.rank := (List.pairwise_cons.1 h.sorted).1 v hv
  rw [Waiting.rank, Waiting.rank, hstream, htime] at hlt
  exact absurd hlt (lt_irrefl _)

theorem headTime?_of_nil (h : Queued unread []) (i : Nat) : headTime? unread i = none := by
  rw [Option.eq_none_iff_forall_ne_some]
  exact fun t ht => List.not_mem_nil ((h.mem_iff ⟨t, i⟩).2 ht)

/-- The first of the queue is the head of a stream, and no head comes before it. -/
theorem exists_least (h : Queued unread (w :: queue)) : ∃ e es,
    unread[w.stream]? = some (e :: es) ∧
      ∀ j t, headTime? unread j = some t → toLex (e.time, w.stream) ≤ toLex (t, j) := by
  obtain ⟨e, he, htime⟩ := Option.map_eq_some_iff.1 ((h.mem_iff w).1 List.mem_cons_self)
  obtain ⟨s, hs, he⟩ := Option.bind_eq_some_iff.1 he
  obtain ⟨es, rfl⟩ := List.head?_eq_some_iff.1 he
  refine ⟨e, es, hs, fun j t hj => ?_⟩
  rw [htime]
  rcases List.mem_cons.1 ((h.mem_iff ⟨t, j⟩).2 hj) with rfl | hmem
  · exact le_rfl
  · exact ((List.pairwise_cons.1 h.sorted).1 _ hmem).le

/-- Taking a head puts the next event of its stream into the queue; the other streams stay. -/
theorem next (h : Queued unread (w :: queue)) (hw : w.stream < unread.length) (es : List Event) :
    Queued (unread.set w.stream es) (Waiting.enqueue w.stream es queue) := by
  have hother := h.stream_ne
  refine ⟨Waiting.enqueue_sorted (List.pairwise_cons.1 h.sorted).2 hother es, fun v => ?_⟩
  rw [Waiting.mem_enqueue]
  by_cases hv : v.stream = w.stream
  · have hout : v ∉ queue := fun hmem => hother v hmem hv
    simp [hv, hout, headTime?_set_self hw]
  · have hne : v ≠ w := fun he => hv (he ▸ rfl)
    have hmem := h.mem_iff v
    rw [List.mem_cons, or_iff_right hne] at hmem
    simp [hv, hmem, headTime?_set_ne (Ne.symm hv)]

end Queued

theorem Waiting.queueFrom_spec (i : Nat) (streams : List (List Event)) :
    Sorted (queueFrom i streams) ∧ ∀ w, w ∈ queueFrom i streams ↔
      i ≤ w.stream ∧ headTime? streams (w.stream - i) = some w.time := by
  induction streams generalizing i with
  | nil => simp [queueFrom, Sorted, headTime?]
  | cons s streams ih =>
    obtain ⟨hsorted, hmem⟩ := ih (i + 1)
    refine ⟨enqueue_sorted hsorted (fun w hw => ?_) s, fun w => ?_⟩
    · have hw := ((hmem w).1 hw).1
      omega
    · rw [queueFrom, mem_enqueue, hmem]
      rcases lt_trichotomy w.stream i with hlt | heq | hgt
      · simp [hlt.ne, hlt.not_ge, Nat.not_le.2 (Nat.lt_succ_of_lt hlt)]
      · simp [heq, headTime?]
      · obtain ⟨k, hk⟩ := Nat.exists_eq_add_of_lt hgt
        have hpos : w.stream - i = k + 1 := by omega
        have hrest : w.stream - (i + 1) = k := by omega
        rw [hpos, hrest]
        simp [hgt.ne', hgt.le, Nat.succ_le_of_lt hgt, headTime?]

theorem queued_new (streams : List (List Event)) :
    Queued streams (Waiting.queueFrom 0 streams) := by
  obtain ⟨hsorted, hmem⟩ := Waiting.queueFrom_spec 0 streams
  exact ⟨hsorted, fun w => by simpa using hmem w⟩

/-- Two streams as one; the head of the second goes first only if its time is less. -/
def mergeTwo (es fs : List Event) : List Event := es.merge fs fun a b => a.time ≤ b.time

def interleave (streams : List (List Event)) : List Event := streams.foldr mergeTwo []

@[simp] theorem interleave_nil : interleave [] = [] := rfl
@[simp] theorem interleave_cons (s : List Event) (ss : List (List Event)) :
    interleave (s :: ss) = mergeTwo s (interleave ss) := rfl

@[simp] theorem mergeTwo_nil (fs : List Event) : mergeTwo [] fs = fs := List.nil_merge fs
@[simp] theorem mergeTwo_nil_right (es : List Event) : mergeTwo es [] = es := List.merge_right es

theorem mergeTwo_of_le {e f : Event} (h : e.time ≤ f.time) (es fs : List Event) :
    mergeTwo (e :: es) (f :: fs) = e :: mergeTwo es (f :: fs) :=
  List.cons_merge_cons_pos _ _ _ (decide_eq_true h)

theorem mergeTwo_of_lt {e f : Event} (h : f.time < e.time) (es fs : List Event) :
    mergeTwo (e :: es) (f :: fs) = f :: mergeTwo (e :: es) fs :=
  List.cons_merge_cons_neg _ _ _ (by simpa using h)

theorem interleave_perm (ss : List (List Event)) : (interleave ss).Perm ss.flatten := by
  induction ss with
  | nil => exact .nil
  | cons s ss ih => exact (List.merge_perm_append _).trans (ih.append_left s)

theorem interleave_eq_nil {ss : List (List Event)} (h : ∀ i, headTime? ss i = none) :
    interleave ss = [] := by
  induction ss with
  | nil => rfl
  | cons s ss ih =>
    have hs : s = [] := by simpa [headTime?] using h 0
    rw [interleave_cons, hs, mergeTwo_nil, ih fun i => h (i + 1)]

theorem exists_headTime? {ss : List (List Event)} {f : Event} {fs : List Event}
    (h : interleave ss = f :: fs) : ∃ i, headTime? ss i = some f.time := by
  induction ss generalizing f fs with
  | nil => cases h
  | cons s ss ih =>
    rw [interleave_cons] at h
    cases s with
    | nil =>
      obtain ⟨i, hi⟩ := ih ((mergeTwo_nil _).symm.trans h)
      exact ⟨i + 1, hi⟩
    | cons a s =>
      cases hrest : interleave ss with
      | nil =>
        rw [hrest, mergeTwo_nil_right] at h
        cases h
        exact ⟨0, rfl⟩
      | cons b bs =>
        rw [hrest] at h
        by_cases hab : a.time ≤ b.time
        · rw [mergeTwo_of_le hab] at h
          cases h
          exact ⟨0, rfl⟩
        · rw [mergeTwo_of_lt (not_le.1 hab)] at h
          cases h
          obtain ⟨i, hi⟩ := ih hrest
          exact ⟨i + 1, hi⟩

/-- A merge begins with the least head, at one time that of the first stream. -/
theorem interleave_eq_cons {ss : List (List Event)} {i : Nat} {e : Event} {es : List Event}
    (hi : ss[i]? = some (e :: es))
    (hleast : ∀ j t, headTime? ss j = some t → toLex (e.time, i) ≤ toLex (t, j)) :
    interleave ss = e :: interleave (ss.set i es) := by
  induction ss generalizing i with
  | nil => cases hi
  | cons s ss ih =>
    cases i with
    | zero =>
      cases hi
      show mergeTwo (e :: es) (interleave ss) = e :: mergeTwo es (interleave ss)
      cases hrest : interleave ss with
      | nil => simp
      | cons f fs =>
        obtain ⟨j, hj⟩ := exists_headTime? hrest
        have hle := hleast (j + 1) f.time hj
        rw [Prod.Lex.toLex_le_toLex] at hle
        exact mergeTwo_of_le (hle.elim le_of_lt fun h => h.1.le) es fs
    | succ i =>
      have hrest : interleave ss = e :: interleave (ss.set i es) := by
        refine ih hi fun j t hj => ?_
        have hle := hleast (j + 1) t hj
        simpa [Prod.Lex.toLex_le_toLex] using hle
      show mergeTwo s (interleave ss) = e :: mergeTwo s (interleave (ss.set i es))
      rw [hrest]
      cases s with
      | nil => simp
      | cons f fs =>
        have hlt := hleast 0 f.time rfl
        rw [Prod.Lex.toLex_le_toLex] at hlt
        exact mergeTwo_of_lt (hlt.resolve_right fun h => absurd h.2 (Nat.not_succ_le_zero i)) fs _

def Event.unnumbered (e : Event) : Event := { e with base := { e.base with number := 0 } }

/-- The first events again, numbered from one and otherwise as they are. -/
structure Numbered (es fs : List Event) : Prop where
  numbers : (fs.map fun e => e.base.number) = (List.range' 1 es.length).map Nat.toUInt64
  others : fs.map Event.unnumbered = es.map Event.unnumbered

theorem numbered_mapIdx (es : List Event) :
    Numbered es (es.mapIdx fun i e => e.renumber (i + 1).toUInt64) where
  numbers := List.ext_getElem (by simp) fun i _ _ => by simp [Event.renumber, Nat.add_comm]
  others := List.ext_getElem (by simp) fun i _ _ => by simp [Event.renumber, Event.unnumbered]

theorem Numbered.length_eq {es fs : List Event} (h : Numbered es fs) : fs.length = es.length := by
  simpa using congrArg List.length h.others

/-- The queue of heads takes the events as a merge does: its first is the least head. -/
theorem mergeFrom_eq (n : Nat) (unread : List (List Event)) (queue : List Waiting)
    (h : Queued unread queue) :
    mergeFrom n unread queue =
      (interleave unread).mapIdx fun i e => e.renumber (n + i + 1).toUInt64 := by
  fun_induction mergeFrom n unread queue with
  | case1 n unread =>
    rw [interleave_eq_nil h.headTime?_of_nil]
    rfl
  | case2 n unread w queue e es hw ih =>
    obtain ⟨hlt, -⟩ := List.getElem?_eq_some_iff.1 hw
    obtain ⟨e', es', hw', hleast⟩ := h.exists_least
    obtain ⟨rfl, rfl⟩ := List.cons.inj (Option.some.inj (hw.symm.trans hw'))
    rw [interleave_eq_cons hw hleast, List.mapIdx_cons, ih (h.next hlt es)]
    simp only [Nat.add_right_comm, Nat.add_assoc]
  | case3 n unread w queue hw ih =>
    obtain ⟨e, es, hw', -⟩ := h.exists_least
    exact (hw e es hw').elim

theorem mergeStreams_eq (streams : List (List Event)) :
    mergeStreams streams =
      (interleave streams).mapIdx fun i e => e.renumber (i + 1).toUInt64 := by
  rw [mergeStreams, mergeFrom_eq 0 streams _ (queued_new streams)]
  simp only [Nat.zero_add]

theorem mergeStreams_numbered (streams : List (List Event)) :
    Numbered (interleave streams) (mergeStreams streams) := by
  rw [mergeStreams_eq]
  exact numbered_mapIdx (interleave streams)

/-! Merging streams that are in order of time. -/

/-- A head that no event of its own stream precedes goes to its place in the merge of the rest. -/
theorem mergeTwo_cons {e : Event} {es : List Event} (he : ∀ f ∈ es, e.time ≤ f.time)
    (fs : List Event) :
    mergeTwo (e :: es) fs =
      List.orderedInsert (fun a b => a.time ≤ b.time) e (mergeTwo es fs) := by
  induction fs with
  | nil =>
    rw [mergeTwo_nil_right, mergeTwo_nil_right]
    cases es with
    | nil => rfl
    | cons f es => rw [List.orderedInsert_cons, if_pos (he f List.mem_cons_self)]
  | cons f fs ih =>
    by_cases hef : e.time ≤ f.time
    · rw [mergeTwo_of_le hef]
      cases es with
      | nil => rw [mergeTwo_nil, List.orderedInsert_cons, if_pos hef]
      | cons a es =>
        have hea := he a List.mem_cons_self
        by_cases haf : a.time ≤ f.time
        · rw [mergeTwo_of_le haf, List.orderedInsert_cons, if_pos hea]
        · rw [mergeTwo_of_lt (not_le.1 haf), List.orderedInsert_cons, if_pos hef]
    · have hrest : mergeTwo es (f :: fs) = f :: mergeTwo es fs := by
        cases es with
        | nil => rw [mergeTwo_nil, mergeTwo_nil]
        | cons a es => exact mergeTwo_of_lt ((not_le.1 hef).trans_le (he a List.mem_cons_self)) es fs
      rw [mergeTwo_of_lt (not_le.1 hef), ih, hrest, List.orderedInsert_cons, if_neg hef]

/-- Merging a stream in order of time into a sorted list sorts both together. -/
theorem mergeTwo_mergeSort {es : List Event} (h : es.Pairwise fun a b => a.time ≤ b.time)
    (fs : List Event) :
    mergeTwo es (fs.mergeSort fun a b => a.time ≤ b.time) =
      (es ++ fs).mergeSort fun a b => a.time ≤ b.time := by
  induction es with
  | nil => rw [mergeTwo_nil, List.nil_append]
  | cons e es ih =>
    obtain ⟨he, hes⟩ := List.pairwise_cons.1 h
    rw [mergeTwo_cons he, ih hes, List.cons_append, StableSort.mergeSort_cons_eq Event.time]

theorem interleave_eq_mergeSort {streams : List (List Event)}
    (h : ∀ s ∈ streams, s.Pairwise fun a b => a.time ≤ b.time) :
    interleave streams = streams.flatten.mergeSort fun a b => a.time ≤ b.time := by
  induction streams with
  | nil => simp
  | cons s streams ih =>
    obtain ⟨hs, hstreams⟩ := List.forall_mem_cons.1 h
    rw [interleave_cons, ih hstreams, mergeTwo_mergeSort hs, List.flatten_cons]

/-- Streams that are in order of time are merged into the stable sort of their concatenation by time,
numbered from one; nothing else of any event changes. -/
theorem mergeStreams_eq_mergeSort {streams : List (List Event)}
    (h : ∀ s ∈ streams, s.Pairwise fun a b => a.time ≤ b.time) :
    Numbered (streams.flatten.mergeSort fun a b => a.time ≤ b.time) (mergeStreams streams) := by
  rw [← interleave_eq_mergeSort h]
  exact mergeStreams_numbered streams

/-- Streams with events at one time, within one of them and in several, and an empty one. -/
theorem mergeStreams_of_ties :
    let event (n : UInt64) (t : Timestamp) : Event :=
      ⟨⟨n, t, "a", "b", none, none⟩, .tcpBegin ⟨1000, 80⟩⟩
    let early : Timestamp := ⟨0, by decide⟩
    let late : Timestamp := ⟨5, by decide⟩
    let streams :=
      [[event 7 early, event 8 late], [], [event 5 early, event 6 early, event 9 late]]
    (∀ s ∈ streams, s.Pairwise fun a b => a.time ≤ b.time) ∧
    Numbered (streams.flatten.mergeSort fun a b => a.time ≤ b.time) (mergeStreams streams) ∧
    ((mergeStreams streams).map fun e => e.base.number) = [1, 2, 3, 4, 5] := by
  intro event early late streams
  have h : ∀ s ∈ streams, s.Pairwise fun a b => a.time ≤ b.time := by decide
  have hmerge := mergeStreams_eq_mergeSort h
  refine ⟨h, hmerge, hmerge.numbers.trans ?_⟩
  rw [List.length_mergeSort]
  decide

end FlowLog
