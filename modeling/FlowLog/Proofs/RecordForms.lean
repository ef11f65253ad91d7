import FlowLog.Proofs.Records

/-! The written forms of a record. It may stand as an object of the fields that are present or as an
array of all nineteen, and it is read back from the text of either. The keys of the object stand in
declared order and are the names under which the record has a field. -/

namespace FlowLog

open Json

namespace Field

/-- What an array holds for a field, with null where it is absent, is read as it was. -/
theorem decode_ofOption (f : Field) (x : Option f.Carrier) :
    f.decode (.ofOption (x.map f.shape.encode)) = .ok x := by
  cases x with
  | none => rfl
  | some x => exact f.decode_encode x

end Field

namespace Record

theorem hasName_iff {r : Record} {s : String} : r.hasName s ↔ ∃ f : Field, f.name = s ∧ r.has f := by
  constructor
  · intro h
    unfold hasName at h
    split at h
    case h_20 => cases h
    all_goals exact ⟨_, rfl, h⟩
  · rintro ⟨f, rfl, h⟩
    rwa [hasName_name]

/-! The object. -/

theorem ofValue_of_perm {r : Record} {ms : List (String × Value)} (h : ms.Perm r.members) :
    ofValue (.object ms) = .ok r :=
  ofValue_of_members (fun _ => h.mem_iff.1) fun _ hf =>
    (h.map Prod.fst).mem_iff.2 (key_mem_members.2 hf)

/-! The array. -/

def elements (r : Record) (fs : List Field) : List Value :=
  fs.map fun f => .ofOption ((r.get f).map f.shape.encode)

/-- The record with the given fields as they are in another. -/
def copyFields (s r : Record) (fs : List Field) : Record := fs.foldl (fun s f => s.put f (r.get f)) s

theorem copyFields_get (s r : Record) (fs : List Field) (g : Field) :
    (s.copyFields r fs).get g = if g ∈ fs then r.get g else s.get g := by
  induction fs generalizing s with
  | nil => rfl
  | cons f fs ih =>
    rw [copyFields, List.foldl_cons, ← copyFields, ih]
    by_cases hg : g ∈ fs
    · simp [hg]
    · by_cases hf : f = g
      · subst hf
        simp
      · simp [hg, hf, Ne.symm hf]

theorem decodeElements_elements (length : Nat) (s r : Record) (fs : List Field) :
    s.decodeElements length fs (r.elements fs) = .ok (s.copyFields r fs) := by
  induction fs generalizing s with
  | nil => rfl
  | cons f fs ih =>
    rw [elements, List.map_cons, decodeElements, f.decode_ofOption]
    exact ih (s.put f (r.get f))

theorem ofValue_elements (r : Record) : ofValue (.array (r.elements Field.all)) = .ok r := by
  rw [ofValue, decodeElements_elements]
  refine congrArg Except.ok (Record.ext fun f => ?_)
  rw [copyFields_get, if_pos f.mem_all]

theorem element_plain (depth : Nat) (r : Record) (f : Field) :
    Value.Plain (depth + 1) (.ofOption ((r.get f).map f.shape.encode)) := by
  cases r.get f with
  | none => exact .null _
  | some x => exact Shape.encode_plain depth f.shape x

theorem element_sorted (r : Record) (f : Field) :
    (Value.ofOption ((r.get f).map f.shape.encode)).sorted =
      .ofOption ((r.get f).map f.shape.encode) := by
  cases r.get f with
  | none => simp [Value.ofOption, Value.sorted]
  | some x => exact Shape.encode_sorted f.shape x

theorem elements_plain (depth : Nat) (r : Record) (fs : List Field) :
    Value.Plain (depth + 2) (.array (r.elements fs)) := by
  refine .array fun x hx => ?_
  obtain ⟨f, -, rfl⟩ := List.mem_map.1 hx
  exact element_plain depth r f

theorem elements_sorted (r : Record) (fs : List Field) :
    (Value.array (r.elements fs)).sorted = .array (r.elements fs) := by
  refine congrArg Value.array (Value.sortedElements_of_sorted fun x hx => ?_)
  obtain ⟨f, -, rfl⟩ := List.mem_map.1 hx
  exact r.element_sorted f

def arrayText (r : Record) : String := (Value.array (r.elements Field.all)).compactText

/-! The keys of the object as its text has them. -/

/-- The keys of members in the order in which they are written. -/
def writtenKeys (ms : List (List Piece × Tree)) : List (Option String) :=
  ms.map fun m => Quoted.text? m.1

theorem writtenKeys_members (r : Record) :
    writtenKeys (Value.memberTrees r.members) =
      (Field.all.filter r.has).map fun f => some f.name := by
  have hkeys : writtenKeys (Value.memberTrees r.members) =
      (r.members.map Prod.fst).map some := by
    simp [writtenKeys, Value.memberTrees_eq, Quoted.text?_pieces]
  rw [hkeys, members_names, List.map_map]
  rfl

theorem treeRead?_text (r : Record) :
    Tree.read? r.text.toList = some (.object (Value.memberTrees r.members)) := by
  rw [text, Value.compactText, String.toList_ofList]
  exact Value.treeRead?_compact (r.toValue_plain 0)

/-- A record is read back from its text as an object, in whatever order the members are taken, and from
its text as an array of its nineteen fields. The keys that the object is written with are the names of
the fields that are present, in declared order, and so just the names under which the record has one. -/
theorem text_forms (r : Record) :
    (Value.read? r.text.toList).map ofValue = some (.ok r) ∧
    (∀ ms, ms.Perm r.members → ofValue (.object ms) = .ok r) ∧
    (Value.read? r.arrayText.toList).map ofValue = some (.ok r) ∧
    (∃ xs, Tree.read? r.arrayText.toList = some (.array xs) ∧ xs.length = 19) ∧
    ∃ ms, Tree.read? r.text.toList = some (.object ms) ∧
      writtenKeys ms = ((Field.all.filter r.has).map fun f => some f.name) ∧
      ∀ s, some s ∈ writtenKeys ms ↔ r.hasName s := by
  have harray : r.arrayText.toList = (Value.array (r.elements Field.all)).compact :=
    String.toList_ofList
  refine ⟨?_, fun ms => ofValue_of_perm, ?_, ?_, _, r.treeRead?_text, r.writtenKeys_members,
    fun s => ?_⟩
  · rw [text, Value.compactText, String.toList_ofList]
    exact r.read?_compact
  · rw [harray, Value.read?_compact (r.elements_plain 125 Field.all), Option.map_some,
      elements_sorted, ofValue_elements]
  · refine ⟨_, harray ▸ Value.treeRead?_compact (r.elements_plain 0 Field.all), ?_⟩
    simp [Value.elementTrees_eq, elements, Field.all]
  · rw [writtenKeys_members, hasName_iff]
    simp [Field.mem_all, and_comm]

/-- The greatest number, a quote and a line feed in a text, and a list that is there but empty. -/
theorem text_forms_backwards :
    let r := Record.empty
      |>.set .eventNumber (18446744073709551615 : UInt64)
      |>.set .domain "\"\n"
      |>.set .responses []
    r.members.reverse.Perm r.members ∧ ofValue (.object r.members.reverse) = .ok r ∧
      (Value.read? r.text.toList).map ofValue = some (.ok r) ∧ r.hasName "responses" := by
  intro r
  have hperm : r.members.reverse.Perm r.members := List.reverse_perm r.members
  exact ⟨hperm, (text_forms r).2.1 _ hperm, (text_forms r).1, rfl⟩

end Record
end FlowLog
