import FlowLog.Proofs.Reached

/-! Connections do not influence each other. What comes of the events of some keys does not depend
on the events of the others, so neither the interleaving of the keys nor the focus under which two
addresses are looked at changes the connections between them. -/

namespace FlowLog

theorem Connection.key_touches (c : Connection) (f : String) :
    c.key.touches f = decide (c.client.address = f ∨ c.server.address = f) := by
  simp [Connection.key, ConnectionKey.touches_of, Bool.beq_eq_decide_eq]

/-- Keeping the events of some keys, and any others that have none, keeps the connections of the
keys. -/
theorem reconstruct_filter (P : ConnectionKey → Bool) (keep : Event → Bool) (es : List Event)
    (focus : String) (hkeep : ∀ e, ∀ k ∈ e.key?, keep e = P k) :
    reconstruct (es.filter keep) focus = (reconstruct es focus).filter fun c => P c.key := by
  rw [reconstruct_eq, reconstruct_eq, Ledger.ofEvents_filter P keep es hkeep,
    Ledger.connections_restrict, List.filter_comm]

theorem reconstruct_filter_key (k : ConnectionKey) (es : List Event) (focus : String) :
    reconstruct (es.filter fun e => e.key? = some k) focus =
      (reconstruct es focus).filter fun c => c.key = k := by
  refine reconstruct_filter (fun j => j = k) _ es focus fun e j hj => ?_
  simp [Option.mem_def.1 hj]

/-- A key's connections are a function of the key's events, whatever lies between them. -/
theorem reconstruct_by_key (es : List Event) (focus : String) :
    (∀ P : ConnectionKey → Bool,
      reconstruct (es.filter fun e => e.key?.all P) focus =
        (reconstruct es focus).filter fun c => P c.key) ∧
    ∀ fs : List Event,
      (∀ k, (es.filter fun e => e.key? = some k) = fs.filter fun e => e.key? = some k) →
        (reconstruct es focus).Perm (reconstruct fs focus) := by
  constructor
  · intro P
    refine reconstruct_filter P _ es focus fun e k hk => ?_
    rw [Option.mem_def.1 hk, Option.all_some]
  · intro fs h
    rw [List.perm_iff_count]
    intro c
    have hcount (gs : List Event) : (reconstruct gs focus).count c =
        (reconstruct (gs.filter fun e => e.key? = some c.key) focus).count c := by
      rw [reconstruct_filter_key, List.count_filter (by simp)]
    rw [hcount es, hcount fs, h c.key]

/-- Two connections, one of them begun twice, in two interleavings. -/
theorem reconstruct_interleaved :
    let base : Base := ⟨1, ⟨0, by decide⟩, "a", "b", none, none⟩
    let back : Base := ⟨2, ⟨5, by decide⟩, "b", "a", none, none⟩
    let one : List Event := [⟨base, .tcpBegin ⟨1000, 80⟩⟩, ⟨back, .tcpData ⟨80, 1000⟩ 7⟩,
      ⟨base, .tcpBegin ⟨1000, 80⟩⟩]
    let two : List Event := [⟨back, .tcpBegin ⟨22, 3000⟩⟩, ⟨base, .tcpEnd ⟨3000, 22⟩ ⟨back.time, 1, 2⟩⟩]
    (∀ k, ((one ++ two).filter fun e => e.key? = some k) =
      (two ++ one).filter fun e => e.key? = some k) ∧
    (reconstruct (one ++ two) "a").Perm (reconstruct (two ++ one) "a") := by
  intro base back one two
  have h : ∀ k, ((one ++ two).filter fun e => e.key? = some k) =
      (two ++ one).filter fun e => e.key? = some k := by
    have hone : ∀ e ∈ one, e.key? = some ⟨⟨"b", 80⟩, ⟨"a", 1000⟩⟩ := by decide
    have htwo : ∀ e ∈ two, e.key? = some ⟨⟨"b", 22⟩, ⟨"a", 3000⟩⟩ := by decide
    intro k
    by_cases hk : k = ⟨⟨"b", 80⟩, ⟨"a", 1000⟩⟩
    · have hnone : two.filter (fun e => e.key? = some k) = [] :=
        List.filter_eq_nil_iff.2 fun e he => by rw [htwo e he, hk]; decide
      rw [List.filter_append, List.filter_append, hnone, List.append_nil, List.nil_append]
    · have hnone : one.filter (fun e => e.key? = some k) = [] :=
        List.filter_eq_nil_iff.2 fun e he => by rw [hone e he]; simpa using Ne.symm hk
      rw [List.filter_append, List.filter_append, hnone, List.append_nil, List.nil_append]
  exact ⟨h, (reconstruct_by_key (one ++ two) "a").2 (two ++ one) h⟩

/-- Two focuses see the connections between them alike. -/
theorem reconstruct_common (es : List Event) (f g : String) :
    ((reconstruct es f).filter fun c => c.client.address = g ∨ c.server.address = g) =
      (reconstruct es g).filter fun c => c.client.address = f ∨ c.server.address = f := by
  simp only [← Connection.key_touches]
  rw [reconstruct_eq, reconstruct_eq, List.filter_comm]

end FlowLog
