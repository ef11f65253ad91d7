import FlowLog.Proofs.Arrangement

/-! Results only grow. What further events make of an open connection depends on its own key alone:
packets join it until an event of its key ends or supersedes it, and from then on it stays as it is.
So a later result holds every connection of an earlier one, the terminated ones unchanged. -/

namespace FlowLog

/-- Whether the event is the end of a connection under the key. -/
def Event.ends (k : ConnectionKey) (e : Event) : Bool :=
  match e.detail with
  | .tcpEnd p _ => e.base.key p = k
  | _ => false

theorem Event.ends_of_not_bounds {k : ConnectionKey} {e : Event} (h : e.bounds k = false) :
    e.ends k = false := by
  obtain ⟨b, d⟩ := e
  cases d with
  | tcpEnd p closing => exact h
  | _ => rfl

theorem le_addSaturating (a b : UInt64) : a ≤ addSaturating a b := by
  have ha := a.toNat_lt
  rw [UInt64.le_iff_toNat_le, addSaturating_toNat, UInt64.size]
  omega

namespace Connection

/-- The same connection with at least the packets and payloads that it had. -/
structure Extends (c d : Connection) : Prop where
  client : d.client = c.client
  clientHost : d.clientHost = c.clientHost
  server : d.server = c.server
  serverHost : d.serverHost = c.serverHost
  opened : d.opened = c.opened
  packets : c.packets <+: d.packets
  clientPayload : c.clientPayload ≤ d.clientPayload
  serverPayload : c.serverPayload ≤ d.serverPayload

namespace Extends

variable {c d x : Connection}

theorem refl (c : Connection) : c.Extends c :=
  ⟨rfl, rfl, rfl, rfl, rfl, List.prefix_rfl, UInt64.le_refl _, UInt64.le_refl _⟩

theorem trans (h : c.Extends d) (k : d.Extends x) : c.Extends x where
  client := k.client.trans h.client
  clientHost := k.clientHost.trans h.clientHost
  server := k.server.trans h.server
  serverHost := k.serverHost.trans h.serverHost
  opened := k.opened.trans h.opened
  packets := h.packets.trans k.packets
  clientPayload := UInt64.le_trans h.clientPayload k.clientPayload
  serverPayload := UInt64.le_trans h.serverPayload k.serverPayload

theorem key (h : c.Extends d) : d.key = c.key := by rw [Connection.key, Connection.key, h.client, h.server]

end Extends

theorem extends_record (c : Connection) (p : Packet) : c.Extends (c.record p) := by
  unfold record
  split
  · exact ⟨rfl, rfl, rfl, rfl, rfl, List.prefix_append _ _, le_addSaturating _ _, UInt64.le_refl _⟩
  · exact ⟨rfl, rfl, rfl, rfl, rfl, List.prefix_append _ _, UInt64.le_refl _, le_addSaturating _ _⟩

theorem extends_extend (c : Connection) (e : Event) : c.Extends (e.extend c) := by
  unfold Event.extend
  split
  · exact extends_record c _
  · exact .refl c

theorem extends_close (c : Connection) (e : Event) : c.Extends (e.close c) := by
  unfold Event.close
  split
  · exact ⟨rfl, rfl, rfl, rfl, rfl, List.prefix_rfl, UInt64.le_refl _, UInt64.le_refl _⟩
  · exact .refl c

theorem extend_closed (c : Connection) (e : Event) : (e.extend c).closed = c.closed := by
  unfold Event.extend record
  split
  · split <;> rfl
  · rfl

/-- What further events make of an open connection. -/
def after (c : Connection) : List Event → Connection
  | [] => c
  | e :: es => if e.bounds c.key then e.close c else (e.extend c).after es

theorem extends_after (c : Connection) (es : List Event) : c.Extends (c.after es) := by
  induction es generalizing c with
  | nil => exact .refl c
  | cons e es ih =>
    rw [after]
    split
    · exact extends_close c e
    · exact (extends_extend c e).trans (ih (e.extend c))

/-- A connection may stay without an end even though an end of its key follows: one that is
superseded first. But the end that it gets is the first of its key. -/
theorem after_closed {c : Connection} (hc : c.closed = none) (es : List Event) :
    (c.after es).closed = none ∨
      ∃ e, es.find? (Event.ends c.key) = some e ∧ (c.after es).closed = some e.time := by
  induction es generalizing c with
  | nil => exact .inl hc
  | cons e es ih =>
    cases he : e.bounds c.key with
    | true =>
      have hafter : c.after (e :: es) = e.close c := by rw [after, if_pos he]
      rw [hafter]
      obtain ⟨b, d⟩ := e
      cases d with
      | tcpEnd p closing =>
        have hends : Event.ends c.key ⟨b, .tcpEnd p closing⟩ = true := he
        exact .inr ⟨⟨b, .tcpEnd p closing⟩, by rw [List.find?_cons, hends], rfl⟩
      | _ => exact .inl hc
    | false =>
      have hafter : c.after (e :: es) = (e.extend c).after es := by
        rw [after, if_neg (by rw [he]; exact Bool.false_ne_true)]
      have hfind : (e :: es).find? (Event.ends c.key) = es.find? (Event.ends (e.extend c).key) := by
        rw [List.find?_cons, Event.ends_of_not_bounds he, Ledger.extend_key]
      rw [hafter, hfind]
      exact ih ((extend_closed c e).trans hc)

/-- What an open connection may have become after further events: the same connection, extended,
and still without an end unless the first end event of its key among them ended it. -/
structure Grows (es : List Event) (c d : Connection) : Prop extends c.Extends d where
  unclosed : c.closed = none
  closed : d.closed = none ∨ ∃ e, es.find? (Event.ends c.key) = some e ∧ d.closed = some e.time

theorem grows_after {c : Connection} (hc : c.closed = none) (es : List Event) :
    c.Grows es (c.after es) := ⟨extends_after c es, hc, after_closed hc es⟩

end Connection

namespace Ledger

/-- The connections of a ledger, whether open or terminated. -/
def all (l : Ledger) : List Connection := l.active ++ l.terminated

theorem restrict_all (P : ConnectionKey → Bool) (l : Ledger) :
    (l.restrict P).all = l.all.filter fun c => P c.key := (List.filter_append ..).symm

theorem ofEvents_closed (es : List Event) : ∀ c ∈ (ofEvents es).active, c.closed = none := by
  induction es using List.reverseRecOn with
  | nil => simp [empty]
  | append_singleton es e ih =>
    intro c hc
    rw [ofEvents_append, step_active] at hc
    rcases List.mem_append.1 hc with hc | hc
    · obtain ⟨d, hd, rfl⟩ := List.mem_map.1 hc
      exact (Connection.extend_closed d e).trans (ih d (List.mem_of_mem_filter hd))
    · unfold Event.opens at hc
      split at hc
      · rw [List.mem_singleton.1 hc]
        rfl
      · simp at hc

theorem ofEvents_more (es fs : List Event) : ofEvents (es ++ fs) = fs.foldl step (ofEvents es) :=
  List.foldl_append

theorem foldl_terminated_prefix (l : Ledger) (es : List Event) :
    l.terminated <+: (es.foldl step l).terminated := by
  induction es generalizing l with
  | nil => exact List.prefix_rfl
  | cons e es ih =>
    have hstep : l.terminated <+: (l.step e).terminated := by
      rw [step_terminated]
      exact List.prefix_append _ _
    exact hstep.trans (ih (l.step e))

/-- Each event closes some of the open connections and extends the others. -/
theorem foldl_all_perm (l : Ledger) (es : List Event) :
    ∃ cs, (es.foldl step l).all.Perm (l.active.map (·.after es) ++ l.terminated ++ cs) := by
  induction es generalizing l with
  | nil => exact ⟨[], by simp [all, Connection.after]⟩
  | cons e es ih =>
    obtain ⟨cs, hcs⟩ := ih (l.step e)
    let kept := l.active.filter fun c => !e.bounds c.key
    let gone := l.active.filter fun c => e.bounds c.key
    have hkept : (kept.map e.extend).map (·.after es) = kept.map (·.after (e :: es)) := by
      rw [List.map_map]
      refine List.map_congr_left fun c hc => ?_
      have he : e.bounds c.key = false := by simpa using (List.mem_filter.1 hc).2
      simp [Connection.after, he]
    have hgone : gone.map e.close = gone.map (·.after (e :: es)) := by
      refine List.map_congr_left fun c hc => ?_
      have he : e.bounds c.key = true := (List.mem_filter.1 hc).2
      simp [Connection.after, he]
    have hsplit : (kept.map (·.after (e :: es)) ++ gone.map (·.after (e :: es))).Perm
        (l.active.map (·.after (e :: es))) := by
      rw [← List.map_append]
      exact (List.perm_append_comm.trans (List.filter_append_perm _ l.active)).map _
    refine ⟨e.opens.map (·.after es) ++ cs, hcs.trans ?_⟩
    rw [step_active, step_terminated, List.map_append, hkept, hgone, List.perm_iff_count]
    intro c
    have hcount := List.perm_iff_count.1 hsplit c
    simp only [List.count_append] at hcount ⊢
    omega

end Ledger

/-! Places in a list that is made of two. -/

section Places

variable {α β : Type} {xs ys zs : List α} {us : List β} {f : β → α}

/-- The places of both parts in one row. -/
def placeOf (us : List β) (f : β → α) (zs : List α) :
    Fin us.length ⊕ Fin zs.length ≃ Fin (us.map f ++ zs).length :=
  finSumFinEquiv.trans (finCongr (by simp))

theorem getElem_placeOf (k : Fin us.length ⊕ Fin zs.length) :
    (us.map f ++ zs)[placeOf us f zs k] = k.elim (fun j => f us[j]) (fun j => zs[j]) := by
  cases k <;> simp [placeOf]

variable [BEq α] [LawfulBEq α]

/-- Each place of a rearranged list is one of either part. -/
theorem exists_origin (h : xs.Perm (us.map f ++ zs)) :
    ∃ origin : Fin xs.length ≃ Fin us.length ⊕ Fin zs.length,
      ∀ i, xs[i] = (origin i).elim (fun j => f us[j]) (fun j => zs[j]) := by
  let place : Fin xs.length ≃ Fin (us.map f ++ zs).length := .ofBijective h.idxBij <|
    (Fintype.bijective_iff_injective_and_card _).2
      ⟨h.subperm.idxInj_injective, by rw [Fintype.card_fin, Fintype.card_fin, h.length_eq]⟩
  refine ⟨place.trans (placeOf us f zs).symm, fun i => ?_⟩
  have hplace : placeOf us f zs ((placeOf us f zs).symm (place i)) = place i :=
    (placeOf us f zs).apply_symm_apply (place i)
  calc xs[i]
    _ = (us.map f ++ zs)[place i] := (h.getElem_idxBij_eq_getElem i).symm
    _ = (us.map f ++ zs)[placeOf us f zs ((placeOf us f zs).symm (place i))] := by
      simp only [hplace]
    _ = _ := getElem_placeOf _

/-- A list that holds both parts has a place for each of theirs. -/
theorem exists_image (h : (us.map f ++ zs).Subperm ys) :
    ∃ image : Fin us.length ⊕ Fin zs.length → Fin ys.length, Function.Injective image ∧
      ∀ k, ys[image k] = k.elim (fun j => f us[j]) (fun j => zs[j]) := by
  refine ⟨fun k => h.idxInj (placeOf us f zs k),
    h.idxInj_injective.comp (placeOf us f zs).injective, fun k => ?_⟩
  exact h.getElem_idxInj_eq_getElem.trans (getElem_placeOf k)

end Places

theorem Reconstruction.snapshot_perm (s : Reconstruction) :
    s.snapshot.Perm (s.active.map Entry.connection ++ s.terminated) := by
  refine (List.mergeSort_perm _ _).trans (List.Perm.append_right _ ?_)
  exact (List.mergeSort_perm _ _).map Entry.connection

namespace Reached

variable {focus : String} {es fs : List Event} {s s' : Reconstruction}

theorem active_closed (h : Reached focus es s) : ∀ x ∈ s.active, x.connection.closed = none := by
  intro x hx
  have hmem : x.connection ∈ s.active.inOrder :=
    List.mem_map_of_mem (List.mem_mergeSort.2 hx)
  rw [h.holds.active] at hmem
  exact Ledger.ofEvents_closed es _ (List.mem_of_mem_filter hmem)

theorem terminated_prefix (h : Reached focus es s) (h' : Reached focus (es ++ fs) s') :
    s.terminated <+: s'.terminated := by
  have hpart := Ledger.foldl_terminated_prefix (Ledger.ofEvents es) fs
  rw [h.holds.terminated, h'.holds.terminated, Ledger.ofEvents_more]
  exact hpart.filter _

/-- A later result holds what became of the open connections, and the terminated ones. -/
theorem subperm_snapshot (h : Reached focus es s) (h' : Reached focus (es ++ fs) s') :
    (s.active.map (fun x => x.connection.after fs) ++ s.terminated).Subperm s'.snapshot := by
  let P := ConnectionKey.touches focus
  let l := (Ledger.ofEvents es).restrict P
  obtain ⟨cs, hcs⟩ := Ledger.foldl_all_perm (Ledger.ofEvents es) fs
  have hactive : (s.active.map Entry.connection).Perm l.active := by
    rw [← h.holds.active]
    exact ((List.mergeSort_perm _ _).map _).symm
  have hlater : s'.snapshot.Perm
      (l.active.map (·.after fs) ++ l.terminated ++ cs.filter fun c => P c.key) := by
    have hall : s'.snapshot.Perm (((Ledger.ofEvents (es ++ fs)).restrict P).all) := by
      rw [Reconstruction.snapshot, h'.holds.assemble_eq]
      exact List.mergeSort_perm _ _
    have hkey (c : Connection) : P (c.after fs).key = P c.key := by
      rw [(Connection.extends_after c fs).key]
    rw [Ledger.restrict_all, Ledger.ofEvents_more] at hall
    refine hall.trans ((hcs.filter _).trans (List.Perm.of_eq ?_))
    simp only [l, Ledger.restrict, List.filter_append, List.filter_map, Function.comp_def, hkey]
  have hmap : (s.active.map fun x => x.connection.after fs).Perm (l.active.map (·.after fs)) := by
    simpa only [List.map_map, Function.comp_def] using hactive.map (·.after fs)
  rw [h.holds.terminated]
  exact ((hmap.append_right _).subperm).trans
    ((List.sublist_append_left _ _).subperm.trans hlater.symm.subperm)

/-- Between two results there is an injection of connections that keeps the terminated ones as they
are and lets the open ones grow. The places of the earlier result are those of the open and of the
terminated connections. -/
theorem snapshot_grows (h : Reached focus es s) (h' : Reached focus (es ++ fs) s') :
    s.terminated <+: s'.terminated ∧
    ∃ (origin : Fin s.snapshot.length ≃ Fin s.active.length ⊕ Fin s.terminated.length)
      (image : Fin s.snapshot.length → Fin s'.snapshot.length), Function.Injective image ∧
      ∀ i, match origin i with
        | .inl j => s.snapshot[i] = s.active[j].connection ∧
            s.snapshot[i].Grows fs s'.snapshot[image i]
        | .inr j => s.snapshot[i] = s.terminated[j] ∧ s'.snapshot[image i] = s.snapshot[i] := by
  obtain ⟨origin, horigin⟩ := exists_origin s.snapshot_perm
  obtain ⟨image, himage, hlater⟩ := exists_image (h.subperm_snapshot h')
  refine ⟨h.terminated_prefix h', origin, fun i => image (origin i),
    himage.comp origin.injective, fun i => ?_⟩
  have hnow := horigin i
  have hlater := hlater (origin i)
  cases horigin : origin i with
  | inl j =>
    simp only [horigin, Sum.elim_inl] at hnow hlater ⊢
    refine ⟨hnow, ?_⟩
    rw [hnow, hlater]
    exact Connection.grows_after (h.active_closed _ (List.getElem_mem _)) fs
  | inr j =>
    simp only [horigin, Sum.elim_inr] at hnow hlater ⊢
    exact ⟨hnow, hlater.trans hnow.symm⟩

end Reached

/-- One connection is terminated already, one is ended by its other side and one is superseded. -/
theorem snapshot_grows_mixed :
    let base : Base := ⟨1, ⟨0, by decide⟩, "a", "b", none, none⟩
    let back : Base := ⟨2, ⟨5, by decide⟩, "b", "a", none, none⟩
    let es : List Event := [⟨base, .tcpBegin ⟨1000, 80⟩⟩, ⟨base, .tcpBegin ⟨2000, 80⟩⟩,
      ⟨base, .tcpBegin ⟨3000, 80⟩⟩, ⟨base, .tcpEnd ⟨3000, 80⟩ ⟨base.time, 1, 2⟩⟩]
    let fs : List Event := [⟨back, .tcpData ⟨80, 1000⟩ 7⟩, ⟨back, .tcpEnd ⟨80, 1000⟩ ⟨base.time, 0, 7⟩⟩,
      ⟨base, .tcpBegin ⟨2000, 80⟩⟩]
    let t := (Reconstruction.new "a").processAll es
    let s : Reconstruction := { t with active := t.active.reverse }
    let s' := s.processAll fs
    Reached "a" es s ∧ Reached "a" (es ++ fs) s' ∧
    s.terminated <+: s'.terminated ∧
    ∃ (origin : Fin s.snapshot.length ≃ Fin s.active.length ⊕ Fin s.terminated.length)
      (image : Fin s.snapshot.length → Fin s'.snapshot.length), Function.Injective image ∧
      ∀ i, match origin i with
        | .inl j => s.snapshot.get i = (s.active.get j).connection ∧
            (s.snapshot.get i).Grows fs (s'.snapshot.get (image i))
        | .inr j => s.snapshot.get i = s.terminated.get j ∧
            s'.snapshot.get (image i) = s.snapshot.get i := by
  intro base back es fs t s s'
  have h : Reached "a" es s := (Reached.new.processAll es).reorder t.active.reverse_perm
  have h' : Reached "a" (es ++ fs) s' := h.processAll fs
  exact ⟨h, h', h.snapshot_grows h'⟩

end FlowLog
