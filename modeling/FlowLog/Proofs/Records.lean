import FlowLog.Proofs.Documents
import FlowLog.Record.Decode

/-! Records are read back from their text. Writing gives a member for each field that is present, and
reading takes the members in any order, so what the order of the keys does to them does not matter;
each shape is read from what it is written as, and an absent field is one without a member. -/

namespace FlowLog
namespace Json
namespace Members

variable {α : Type}

theorem mem_of_get? {k : String} {x : α} {ms : List (String × α)} (h : get? k ms = some x) :
    (k, x) ∈ ms := by
  induction ms with
  | nil => cases h
  | cons m ms ih =>
    obtain ⟨k', x'⟩ := m
    by_cases hk : k = k'
    · rw [get?, if_pos hk] at h
      cases h
      exact hk ▸ List.mem_cons_self
    · rw [get?, if_neg hk] at h
      exact List.mem_cons_of_mem _ (ih h)

theorem get?_isSome {k : String} {ms : List (String × α)} :
    (get? k ms).isSome ↔ k ∈ ms.map Prod.fst := by
  induction ms with
  | nil => simp [get?]
  | cons m ms ih =>
    obtain ⟨k', x'⟩ := m
    by_cases hk : k = k'
    · simp [get?, hk]
    · simp [get?, hk, ih]

theorem mem_insert {k : String} {x : α} {m : String × α} {ms : List (String × α)}
    (h : m ∈ insert k x ms) : m = (k, x) ∨ m ∈ ms := by
  induction ms with
  | nil => exact .inl (List.mem_singleton.1 h)
  | cons n ms ih =>
    obtain ⟨k', x'⟩ := n
    unfold insert at h
    split at h
    · exact List.mem_cons.1 h
    · split at h
      · exact (List.mem_cons.1 h).imp_right (List.mem_cons_of_mem _)
      · rcases List.mem_cons.1 h with h | h
        · exact .inr (h ▸ List.mem_cons_self)
        · exact (ih h).imp_right (List.mem_cons_of_mem _)

theorem key_mem_insert {k l : String} {x : α} {ms : List (String × α)} :
    l ∈ (insert k x ms).map Prod.fst ↔ l = k ∨ l ∈ ms.map Prod.fst := by
  induction ms with
  | nil => simp [insert]
  | cons n ms ih =>
    obtain ⟨k', x'⟩ := n
    unfold insert
    split
    · simp
    · split
      · rename_i heq
        simp [heq]
      · rw [List.map_cons, List.mem_cons, ih, List.map_cons, List.mem_cons]
        exact or_left_comm

/-- Putting members in order adds none. -/
theorem mem_of_mem_ofList {m : String × α} {ms : List (String × α)} (h : m ∈ ofList ms) :
    m ∈ ms := by
  have hfold : ∀ (ms done : List (String × α)),
      m ∈ ms.foldl (fun done m => insert m.1 m.2 done) done → m ∈ done ∨ m ∈ ms := by
    intro ms
    induction ms with
    | nil => exact fun done h => .inl h
    | cons n ms ih =>
      intro done h
      rcases ih _ h with h | h
      · exact (mem_insert h).elim (fun h => .inr (h ▸ List.mem_cons_self)) .inl
      · exact .inr (List.mem_cons_of_mem n h)
  exact (hfold ms [] h).resolve_left List.not_mem_nil

/-- Putting members in order loses no key. -/
theorem key_mem_ofList {k : String} {ms : List (String × α)} :
    k ∈ (ofList ms).map Prod.fst ↔ k ∈ ms.map Prod.fst := by
  have hfold : ∀ (ms done : List (String × α)),
      k ∈ (ms.foldl (fun done m => insert m.1 m.2 done) done).map Prod.fst ↔
        k ∈ done.map Prod.fst ∨ k ∈ ms.map Prod.fst := by
    intro ms
    induction ms with
    | nil => simp
    | cons n ms ih =>
      intro done
      rw [List.foldl_cons, ih, key_mem_insert, List.map_cons, List.mem_cons, or_assoc, or_left_comm]
  exact (hfold ms []).trans (by simp)

end Members

namespace Value

theorem sortedElements_of_sorted {xs : List Value} (h : ∀ x ∈ xs, x.sorted = x) :
    sortedElements xs = xs := by
  induction xs with
  | nil => rfl
  | cons x xs ih =>
    obtain ⟨hx, hxs⟩ := List.forall_mem_cons.1 h
    rw [sortedElements, hx, ih hxs]

theorem sortedMembers_of_sorted {ms : List (String × Value)} (h : ∀ m ∈ ms, m.2.sorted = m.2) :
    sortedMembers ms = ms := by
  induction ms with
  | nil => rfl
  | cons m ms ih =>
    obtain ⟨hm, hms⟩ := List.forall_mem_cons.1 h
    rw [sortedMembers, hm, ih hms]

theorem strings_plain (depth : Nat) (xs : List String) : Plain (depth + 1) (strings xs) := by
  refine .array fun v hv => ?_
  obtain ⟨s, -, rfl⟩ := List.mem_map.1 hv
  exact .string depth s

theorem strings_sorted (xs : List String) : (strings xs).sorted = strings xs := by
  refine congrArg array (sortedElements_of_sorted fun v hv => ?_)
  obtain ⟨s, -, rfl⟩ := List.mem_map.1 hv
  rfl

end Value
end Json

open Json

namespace Field

theorem ofName?_name (f : Field) : ofName? f.name = some f := by
  cases f <;> decide

theorem name_inj {f g : Field} (h : f.name = g.name) : f = g := by
  have hf := ofName?_name f
  rw [h, ofName?_name g] at hf
  exact (Option.some.inj hf).symm

end Field

namespace Shape

theorem decodeBelow_ofNat (s : Shape) {limit n : Nat} (h : n < limit) (hlimit : limit ≤ UInt64.size) :
    s.decodeBelow limit (.ofNat n) = .ok n := by
  have hn : n.toUInt64.toNat = n := by
    rw [Nat.toUInt64_eq, UInt64.toNat_ofNat', Nat.mod_eq_of_lt (Nat.lt_of_lt_of_le h hlimit)]
  rw [Value.ofNat, decodeBelow, hn, if_pos h]

theorem decodeTexts_strings (xs : List String) : decodeTexts (xs.map .string) = .ok xs := by
  induction xs with
  | nil => rfl
  | cons x xs ih =>
    rw [List.map_cons, decodeTexts, ih]
    rfl

/-- What a shape is written as is read as the same content. -/
theorem decode_encode : (s : Shape) → (x : s.Carrier) → s.decode (s.encode x) = .ok x
  | u8, n => by
    rw [encode, decode, decodeBelow_ofNat u8 n.toNat_lt (by decide)]
    simp [Except.map]
  | u16, n => by
    rw [encode, decode, decodeBelow_ofNat u16 n.toNat_lt (by decide)]
    simp [Except.map]
  | u64, n => by
    rw [encode, decode, decodeBelow_ofNat u64 n.toNat_lt (by decide)]
    simp [Except.map]
  | text, _ => rfl
  | texts, xs => decodeTexts_strings xs

theorem encode_ne_null (s : Shape) (x : s.Carrier) : s.encode x ≠ .null := by
  cases s <;> nofun

theorem encode_plain (depth : Nat) : (s : Shape) → (x : s.Carrier) →
    Value.Plain (depth + 1) (s.encode x)
  | u8, _ => .natural _ _
  | u16, _ => .natural _ _
  | u64, _ => .natural _ _
  | text, s => .string _ s
  | texts, xs => Value.strings_plain depth xs

/-- No field holds an object, so nothing in it has an order to lose. -/
theorem encode_sorted : (s : Shape) → (x : s.Carrier) → (s.encode x).sorted = s.encode x
  | u8, _ => rfl
  | u16, _ => rfl
  | u64, _ => rfl
  | text, _ => rfl
  | texts, xs => Value.strings_sorted xs

end Shape

namespace Field

theorem decode_encode (f : Field) (x : f.Carrier) :
    f.decode (f.shape.encode x) = .ok (some x) := by
  have hshape := Shape.decode_encode f.shape x
  unfold decode
  split
  · rename_i hnull
    exact absurd hnull (f.shape.encode_ne_null x)
  · rw [hshape]
    rfl

end Field

namespace Record

/-- The members that a record is written as. -/
def members (r : Record) : List (String × Value) :=
  Field.all.filterMap fun f => (r.get f).map fun x => (f.name, f.shape.encode x)

theorem mem_members {r : Record} {m : String × Value} :
    m ∈ r.members ↔ ∃ f x, r.get f = some x ∧ m = (f.name, f.shape.encode x) := by
  simp only [members, List.mem_filterMap, Field.mem_all, true_and, Option.map_eq_some_iff]
  exact exists_congr fun f => exists_congr fun x => and_congr_right fun _ => eq_comm

theorem members_names (r : Record) :
    r.members.map Prod.fst = (Field.all.filter r.has).map Field.name := by
  rw [members]
  induction Field.all with
  | nil => rfl
  | cons f fs ih => cases hf : r.get f <;> simp [has, hf, ← ih]

theorem key_mem_members {r : Record} {f : Field} : f.name ∈ r.members.map Prod.fst ↔ r.has f := by
  rw [members_names, List.mem_map]
  constructor
  · rintro ⟨g, hg, hname⟩
    exact Field.name_inj hname ▸ (List.mem_filter.1 hg).2
  · exact fun h => ⟨f, List.mem_filter.2 ⟨f.mem_all, h⟩, rfl⟩

theorem toValue_plain (depth : Nat) (r : Record) : Value.Plain (depth + 2) r.toValue := by
  refine .object fun m hm => ?_
  obtain ⟨f, x, -, rfl⟩ := mem_members.1 hm
  exact Shape.encode_plain depth f.shape x

theorem toValue_sorted (r : Record) : r.toValue.sorted = .object (Members.ofList r.members) := by
  have hmembers : Value.sortedMembers r.members = r.members := by
    refine Value.sortedMembers_of_sorted fun m hm => ?_
    obtain ⟨f, x, -, rfl⟩ := mem_members.1 hm
    exact Shape.encode_sorted f.shape x
  exact congrArg (fun ms => Value.object (Members.ofList ms)) hmembers

/-- The member of a written record under the name of a field is its content. -/
theorem get?_toValue (r : Record) (f : Field) :
    r.toValue.sorted.get? f.name = (r.get f).map f.shape.encode := by
  rw [toValue_sorted, Value.get?]
  cases hget : Members.get? f.name (Members.ofList r.members) with
  | none =>
    have hkey : (Members.get? f.name (Members.ofList r.members)).isSome ↔ r.has f := by
      rw [Members.get?_isSome, Members.key_mem_ofList, key_mem_members]
    rw [hget, has] at hkey
    cases hf : r.get f with
    | none => rfl
    | some x => simp [hf] at hkey
  | some v =>
    obtain ⟨g, x, hg, he⟩ := mem_members.1 (Members.mem_of_mem_ofList (Members.mem_of_get? hget))
    obtain ⟨hname, rfl⟩ := Prod.mk.inj he
    obtain rfl := Field.name_inj hname
    rw [hg, Option.map_some]

theorem decodeMember_encode (r : Record) (f : Field) (x : f.Carrier) :
    r.decodeMember f.name (f.shape.encode x) = .ok (r.put f (some x)) := by
  rw [decodeMember, Field.ofName?_name]
  dsimp only
  rw [Field.decode_encode]
  rfl

/-- Members of a record, in any order and repeated at will, set their fields to its own and no
others. -/
theorem decodeMembers_of_members {r : Record} {ms : List (String × Value)}
    (h : ∀ m ∈ ms, m ∈ r.members) (s : Record) :
    ∃ t, s.decodeMembers ms = .ok t ∧
      (∀ f, f.name ∈ ms.map Prod.fst → t.get f = r.get f) ∧
      ∀ f, f.name ∉ ms.map Prod.fst → t.get f = s.get f := by
  induction ms generalizing s with
  | nil => exact ⟨s, rfl, fun f hf => absurd hf List.not_mem_nil, fun f _ => rfl⟩
  | cons m ms ih =>
    obtain ⟨f, x, hx, rfl⟩ := mem_members.1 (h m List.mem_cons_self)
    obtain ⟨t, hdecode, hset, hkept⟩ :=
      ih (fun n hn => h n (List.mem_cons_of_mem _ hn)) (s.put f (some x))
    refine ⟨t, ?_, fun g hg => ?_, fun g hg => ?_⟩
    · rw [decodeMembers, decodeMember_encode]
      exact hdecode
    -- A later member under the same name holds the same content.
    · by_cases hlater : g.name ∈ ms.map Prod.fst
      · exact hset g hlater
      · have hname : g.name = f.name := (List.mem_cons.1 hg).resolve_right hlater
        obtain rfl : g = f := Field.name_inj hname
        rw [hkept g hlater, put_get_self, hx]
    · obtain ⟨hname, hlater⟩ := not_or.1 (List.mem_cons.not.1 hg)
      rw [hkept g hlater, put_get_ne s (some x) fun hf => hname (congrArg Field.name hf.symm)]

/-- An object of members of a record, none of its keys missing, is read as the record. -/
theorem ofValue_of_members {r : Record} {ms : List (String × Value)} (h : ∀ m ∈ ms, m ∈ r.members)
    (hkeys : ∀ f, r.has f → f.name ∈ ms.map Prod.fst) : ofValue (.object ms) = .ok r := by
  obtain ⟨t, hdecode, hset, hkept⟩ := decodeMembers_of_members h empty
  have hr : t = r := by
    ext1 f
    by_cases hf : f.name ∈ ms.map Prod.fst
    · exact hset f hf
    · have habsent : r.get f = none := Option.not_isSome_iff_eq_none.1 (mt (hkeys f) hf)
      rw [hkept f hf, habsent, empty_get]
  rw [ofValue, hdecode, hr]

theorem ofValue_toValue (r : Record) : ofValue r.toValue.sorted = .ok r := by
  rw [toValue_sorted]
  exact ofValue_of_members (fun m => Members.mem_of_mem_ofList)
    fun f hf => Members.key_mem_ofList.2 (key_mem_members.2 hf)

/-- A record is read back from its text. -/
theorem read?_compact (r : Record) :
    (Value.read? r.toValue.compact).map ofValue = some (.ok r) := by
  rw [Value.read?_compact (toValue_plain 125 r), Option.map_some, ofValue_toValue]

end Record
end FlowLog
