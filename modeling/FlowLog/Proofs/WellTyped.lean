import FlowLog.Proofs.ByteOrder
import FlowLog.Proofs.Contents

/-! Which objects are records. A field is read from what stands last under its name, so an object is
a record when each of these is missing, null or of the shape of its field, whatever else it holds.
Other fields are at fault, and of these the one of the least name is reported. -/

namespace FlowLog

open Json

namespace Shape

/-- Where the numbers of a shape end. -/
def limit? : Shape → Option Nat
  | u8 => some UInt8.size
  | u16 => some UInt16.size
  | u64 => some UInt64.size
  | _ => none

/-- The trees that are of a shape. -/
inductive Takes : Shape → Tree → Prop
  | number {s : Shape} {limit m : Nat} {n : Numeral} (hs : s.limit? = some limit)
    (hn : n.Denotes m) (hm : m < limit) : Takes s (.number n)
  | text {ps : List Piece} : Takes .text (.string ps)
  | texts {ts : List Tree} (h : ∀ t ∈ ts, ∃ ps, t = .string ps) : Takes .texts (.array ts)

/-- The content of a field that a tree stands for. -/
def Tells : (s : Shape) → Tree → s.Carrier → Prop
  | u8, t, x => ∃ n, t = .number n ∧ n.Denotes x.toNat
  | u16, t, x => ∃ n, t = .number n ∧ n.Denotes x.toNat
  | u64, t, x => ∃ n, t = .number n ∧ n.Denotes x.toNat
  | text, t, x => t.Spells x
  | texts, t, xs => ∃ ts, t = .array ts ∧ List.Forall₂ Tree.Spells ts xs

/-- What is reported of a value that is not of a shape: a whole number as out of range, and anything
else by its type; of an array the first element that is no text. -/
inductive Fault : Shape → Value → Malformed → Prop
  | tooGreat {s : Shape} {limit : Nat} {n : UInt64} (hs : s.limit? = some limit)
    (hn : limit ≤ n.toNat) : Fault s (.number (.natural n)) (.outOfRange (.natural n) (.field s))
  | belowZero {s : Shape} {limit n : Nat} (hs : s.limit? = some limit) :
    Fault s (.number (.negative n)) (.outOfRange (.negative n) (.field s))
  | noInteger {s : Shape} {limit : Nat} {v : Value} (hs : s.limit? = some limit)
    (hnat : ∀ n, v ≠ .number (.natural n)) (hneg : ∀ n, v ≠ .number (.negative n)) :
    Fault s v (.wrongType v (.field s))
  | noText {v : Value} (h : ∀ x, v ≠ .string x) : Fault .text v (.wrongType v (.field .text))
  | noArray {v : Value} (h : ∀ vs, v ≠ .array vs) : Fault .texts v (.wrongType v (.field .texts))
  | noElement {xs : List String} {v : Value} {vs : List Value} (h : ∀ x, v ≠ .string x) :
    Fault .texts (.array (xs.map .string ++ v :: vs)) (.wrongType v (.field .text))

variable {s : Shape} {v : Value} {e : Malformed}

/-! Reading a value as a shape. -/

theorem eq_ofNat_of_decodeBelow {limit m : Nat} (h : s.decodeBelow limit v = .ok m) :
    v = .ofNat m ∧ m < limit := by
  unfold decodeBelow at h
  split at h
  · split at h
    · rename_i n hn
      cases h
      exact ⟨by simp [Value.ofNat], hn⟩
    · cases h
  · cases h
  · cases h

/-- A number is read into a type that tells apart the numbers below the limit. -/
theorem eq_ofNat_of_decodeBelow_map {α : Type} {limit : Nat} {ofNat : Nat → α} {toNat : α → Nat}
    (hto : ∀ m < limit, toNat (ofNat m) = m) {x : α}
    (h : (s.decodeBelow limit v).map ofNat = .ok x) : v = .ofNat (toNat x) := by
  cases hm : s.decodeBelow limit v with
  | error e =>
    rw [hm] at h
    cases h
  | ok m =>
    rw [hm] at h
    cases h
    obtain ⟨rfl, hlt⟩ := eq_ofNat_of_decodeBelow hm
    rw [hto m hlt]

theorem decodeTexts_eq_ok {vs : List Value} {xs : List String} :
    decodeTexts vs = .ok xs ↔ vs = xs.map .string := by
  constructor
  · intro h
    induction vs generalizing xs with
    | nil =>
      cases h
      rfl
    | cons v vs ih =>
      obtain ⟨y, hy, h⟩ := bind_eq_ok.1 h
      obtain ⟨ys, hys, h⟩ := bind_eq_ok.1 h
      cases h
      rw [ih hys]
      cases v <;> cases hy
      rfl
  · rintro rfl
    exact decodeTexts_strings xs

/-- A value is read as the one content that is written as it. -/
theorem decode_eq_ok {x : s.Carrier} : s.decode v = .ok x ↔ v = s.encode x := by
  refine ⟨fun h => ?_, fun h => h ▸ s.decode_encode x⟩
  cases s with
  | u8 => exact eq_ofNat_of_decodeBelow_map (fun m hm => UInt8.toNat_ofNat_of_lt' hm) h
  | u16 => exact eq_ofNat_of_decodeBelow_map (fun m hm => UInt16.toNat_ofNat_of_lt' hm) h
  | u64 => exact eq_ofNat_of_decodeBelow_map (fun m hm => UInt64.toNat_ofNat_of_lt' hm) h
  | text =>
    cases v <;> cases h
    rfl
  | texts =>
    cases v with
    | array vs => exact congrArg Value.array (decodeTexts_eq_ok.1 h)
    | _ => cases h

theorem decodeBelow_eq_error {limit : Nat} (hs : s.limit? = some limit) :
    s.decodeBelow limit v = .error e ↔ s.Fault v e := by
  constructor
  · intro h
    unfold decodeBelow at h
    split at h
    · split at h
      · cases h
      · rename_i hn
        cases h
        exact .tooGreat hs (Nat.le_of_not_lt hn)
    · cases h
      exact .belowZero hs
    · rename_i hnat hneg
      cases h
      exact .noInteger hs hnat hneg
  · intro h
    cases h with
    | tooGreat hs' hn =>
      obtain rfl := Option.some.inj (hs.symm.trans hs')
      rw [decodeBelow, if_neg (Nat.not_lt.2 hn)]
    | belowZero => rfl
    | noInteger _ hnat hneg => rw [decodeBelow.eq_3 _ _ _ hnat hneg]
    | _ => cases hs

theorem decodeText_eq_error :
    decodeText v = .error e ↔ (∀ x, v ≠ .string x) ∧ e = .wrongType v (.field .text) := by
  cases v <;> simp [decodeText, eq_comm]

theorem decodeTexts_eq_error {vs : List Value} : decodeTexts vs = .error e ↔
    ∃ xs v us, vs = List.map Value.string xs ++ v :: us ∧ (∀ x, v ≠ .string x) ∧
      e = .wrongType v (.field .text) := by
  constructor
  · intro h
    induction vs with
    | nil => cases h
    | cons v vs ih =>
      cases hv : decodeText v with
      | error d =>
        rw [decodeTexts, hv] at h
        cases h
        obtain ⟨htext, rfl⟩ := decodeText_eq_error.1 hv
        exact ⟨[], v, vs, rfl, htext, rfl⟩
      | ok x =>
        cases hvs : decodeTexts vs with
        | error d =>
          rw [decodeTexts, hv, hvs] at h
          cases h
          obtain ⟨xs, w, us, rfl, hw⟩ := ih hvs
          cases v <;> cases hv
          exact ⟨x :: xs, w, us, rfl, hw⟩
        | ok xs =>
          rw [decodeTexts, hv, hvs] at h
          cases h
  · rintro ⟨xs, v, us, rfl, hv⟩
    induction xs with
    | nil =>
      rw [List.map_nil, List.nil_append, decodeTexts, decodeText_eq_error.2 hv]
      rfl
    | cons x xs ih =>
      rw [List.map_cons, List.cons_append, decodeTexts, ih]
      rfl

theorem decode_eq_error_of_limit {limit : Nat} (hs : s.limit? = some limit) :
    s.decode v = .error e ↔ s.decodeBelow limit v = .error e := by
  cases s <;> cases hs <;>
  · rw [decode]
    cases decodeBelow _ _ v <;> simp [Except.map]

theorem decode_eq_error : s.decode v = .error e ↔ s.Fault v e := by
  cases s with
  | u8 | u16 | u64 => rw [decode_eq_error_of_limit rfl, decodeBelow_eq_error rfl]
  | text =>
    rw [decode, decodeText_eq_error]
    constructor
    · rintro ⟨h, rfl⟩
      exact .noText h
    · intro h
      cases h with
      | noText h => exact ⟨h, rfl⟩
      | tooGreat hs | belowZero hs | noInteger hs => cases hs
  | texts =>
    constructor
    · intro h
      cases v with
      | array vs =>
        obtain ⟨xs, v, us, rfl, hv, rfl⟩ := decodeTexts_eq_error.1 h
        exact .noElement hv
      | _ =>
        cases h
        refine .noArray fun vs he => ?_
        cases he
    · intro h
      cases h with
      | noArray h => cases v <;> first | rfl | exact absurd rfl (h _)
      | noElement hv => exact decodeTexts_eq_error.2 ⟨_, _, _, rfl, hv, rfl⟩
      | tooGreat hs | belowZero hs | noInteger hs => cases hs

/-! The trees that values of a shape come from. -/

variable {t : Tree}

theorem decode_eq_ok_of_gives (h : t.Gives v) {x : s.Carrier} :
    s.decode v = .ok x ↔ s.Tells t x := by
  rw [decode_eq_ok]
  cases s with
  | u8 => exact h.eq_ofNat_iff (x.toNat_lt.trans (by decide))
  | u16 => exact h.eq_ofNat_iff (x.toNat_lt.trans (by decide))
  | u64 => exact h.eq_ofNat_iff x.toNat_lt
  | text => exact h.eq_string_iff
  | texts => exact h.eq_strings_iff

theorem takes_iff (h : t.Gives v) : s.Takes t ↔ ∃ x, s.Tells t x := by
  constructor
  · intro ht
    cases ht with
    | number hs hn hm =>
      cases s with
      | u8 =>
        cases hs
        exact ⟨.ofNat _, _, rfl, (UInt8.toNat_ofNat_of_lt' hm).symm ▸ hn⟩
      | u16 =>
        cases hs
        exact ⟨.ofNat _, _, rfl, (UInt16.toNat_ofNat_of_lt' hm).symm ▸ hn⟩
      | u64 =>
        cases hs
        exact ⟨.ofNat _, _, rfl, (UInt64.toNat_ofNat_of_lt' hm).symm ▸ hn⟩
      | _ => cases hs
    | text =>
      cases h with
      | string hps => exact ⟨_, _, rfl, hps⟩
    | texts hts =>
      cases h with
      | array hvs =>
        obtain ⟨xs, hxs⟩ := (Tree.exists_spells_iff hvs).2 hts
        exact ⟨xs, _, rfl, hxs⟩
  · rintro ⟨x, hx⟩
    cases s with
    | u8 | u16 | u64 =>
      obtain ⟨n, rfl, hn⟩ := hx
      exact .number rfl hn x.toNat_lt
    | text =>
      obtain ⟨ps, rfl, -⟩ := hx
      exact .text
    | texts =>
      obtain ⟨ts, rfl, hts⟩ := hx
      cases h with
      | array hvs => exact .texts ((Tree.exists_spells_iff hvs).1 ⟨x, hts⟩)

end Shape

namespace Field

variable {f : Field} {v : Value} {e : Malformed}

theorem decode_of_ne_null (h : v ≠ .null) : f.decode v = (f.shape.decode v).map some := by
  unfold decode
  split
  · exact absurd rfl h
  · rfl

theorem decode_eq_ok_none : f.decode v = .ok none ↔ v = .null := by
  refine ⟨fun h => ?_, fun h => h ▸ rfl⟩
  by_contra hv
  rw [decode_of_ne_null hv] at h
  cases hd : f.shape.decode v <;> simp [hd, Except.map] at h

theorem decode_eq_ok_some {x : f.Carrier} :
    f.decode v = .ok (some x) ↔ f.shape.decode v = .ok x := by
  by_cases hv : v = .null
  · subst hv
    exact ⟨nofun, fun h => absurd (Shape.decode_eq_ok.1 h).symm (f.shape.encode_ne_null x)⟩
  · rw [decode_of_ne_null hv]
    cases f.shape.decode v <;> simp [Except.map]

theorem decode_eq_error : f.decode v = .error e ↔ v ≠ .null ∧ f.shape.Fault v e := by
  by_cases hv : v = .null
  · subst hv
    exact ⟨nofun, fun h => absurd rfl h.1⟩
  · rw [decode_of_ne_null hv, ← Shape.decode_eq_error]
    cases f.shape.decode v <;> simp [Except.map, hv]

/-- Nothing but null stands for a missing content, and for a content what tells it. -/
def Tells (f : Field) (t? : Option Tree) : Option f.Carrier → Prop
  | none => ∀ t ∈ t?, t = .null
  | some x => ∃ t ∈ t?, f.shape.Tells t x

/-- Absent, null or of the field's shape. -/
def Takes (f : Field) (t? : Option Tree) : Prop := ∀ t ∈ t?, t = .null ∨ f.shape.Takes t

/-- What the members give to a field. -/
def read (f : Field) (ms : List (String × Value)) : Except Malformed (Option f.Carrier) :=
  (Members.get? f.name ms).elim (.ok none) f.decode

section Trees

variable {room : Nat} {ms : List (List Piece × Tree)} {vs : List (String × Value)}

theorem read_eq_ok (h : Tree.members? room ms = some vs) {x : Option f.Carrier} :
    f.read (Members.ofList vs) = .ok x ↔ f.Tells (Tree.lastUnder f.name ms) x := by
  obtain ⟨ht, hget⟩ | ⟨t, v, ht, hget, hv⟩ := Tree.lastUnder_of_members? h f.name
  · rw [read, hget, ht]
    cases x <;> simp [Tells]
  · have hgives := Tree.gives_of_value? hv
    rw [read, hget, ht, Option.elim_some]
    cases x with
    | none =>
      rw [decode_eq_ok_none, hgives.eq_null_iff]
      simp [Tells]
    | some x =>
      rw [decode_eq_ok_some, Shape.decode_eq_ok_of_gives hgives]
      simp [Tells]

theorem read_eq_error (h : Tree.members? room ms = some vs) :
    f.read (Members.ofList vs) = .error e ↔ ∃ t ∈ Tree.lastUnder f.name ms, ∃ v,
      t.value? room = some v ∧ v ≠ .null ∧ f.shape.Fault v e := by
  obtain ⟨ht, hget⟩ | ⟨t, v, ht, hget, hv⟩ := Tree.lastUnder_of_members? h f.name
  · rw [read, hget, ht]
    simp
  · rw [read, hget, ht, Option.elim_some, decode_eq_error]
    simp [hv]

/-- A field is at fault when it has no content to tell. -/
theorem takes_iff (h : Tree.members? room ms = some vs) :
    f.Takes (Tree.lastUnder f.name ms) ↔ ∃ x, f.read (Members.ofList vs) = .ok x := by
  simp only [read_eq_ok h]
  obtain ⟨ht, -⟩ | ⟨t, v, ht, -, hv⟩ := Tree.lastUnder_of_members? h f.name
  · rw [ht]
    exact ⟨fun _ => ⟨none, nofun⟩, fun _ => nofun⟩
  · have htakes : f.Takes (some t) ↔ t = .null ∨ ∃ x, f.shape.Tells t x := by
      simp [Takes, Shape.takes_iff (Tree.gives_of_value? hv)]
    rw [ht, htakes]
    constructor
    · rintro (hnull | ⟨x, hx⟩)
      · exact ⟨none, fun _ he => Option.some.inj he ▸ hnull⟩
      · exact ⟨some x, t, rfl, hx⟩
    · rintro ⟨_ | x, hx⟩
      · exact .inl (hx t rfl)
      · obtain ⟨_, he, hx⟩ := hx
        exact .inr ⟨x, Option.some.inj he ▸ hx⟩

theorem not_takes_iff (h : Tree.members? room ms = some vs) :
    ¬f.Takes (Tree.lastUnder f.name ms) ↔ ∃ e, f.read (Members.ofList vs) = .error e := by
  rw [takes_iff h]
  cases f.read (Members.ofList vs) <;> simp

/-- The room that a tree has makes no difference to what a field reads from it. -/
theorem read_eq_of_lastUnder {room' : Nat} {ms' : List (List Piece × Tree)}
    {vs' : List (String × Value)} (h : Tree.members? room ms = some vs)
    (h' : Tree.members? room' ms' = some vs')
    (hlast : Tree.lastUnder f.name ms' = Tree.lastUnder f.name ms) :
    f.read (Members.ofList vs') = f.read (Members.ofList vs) := by
  have hlookup := Tree.lastUnder_of_members? h f.name
  have hlookup' := Tree.lastUnder_of_members? h' f.name
  rw [hlast] at hlookup'
  obtain ⟨ht, hget⟩ | ⟨t, v, ht, hget, hv⟩ := hlookup <;>
    obtain ⟨ht', hget'⟩ | ⟨t', v', ht', hget', hv'⟩ := hlookup' <;> rw [ht] at ht' <;> cases ht'
  · rw [read, read, hget, hget']
  · rw [read, read, hget, hget', Tree.value?_unique hv hv']

end Trees

variable {k : String} {ms : List (String × Value)}

theorem read_cons_self : f.read ((f.name, v) :: ms) = f.decode v := by
  simp [read, Members.get?]

theorem read_cons_ne (h : f.name ≠ k) : f.read ((k, v) :: ms) = f.read ms := by
  rw [read, Members.get?, if_neg h, read]

theorem name_mem_of_read (h : f.read ms = .error e) : f.name ∈ ms.map Prod.fst := by
  rw [← Members.get?_isSome]
  cases hget : Members.get? f.name ms with
  | none => simp [read, hget] at h
  | some v => rfl

end Field

namespace Record

variable {r s : Record} {k : String} {v : Value} {ms : List (String × Value)} {e : Malformed}

theorem decodeMembers_cons_of_ne (h : ∀ f : Field, f.name ≠ k) :
    r.decodeMembers ((k, v) :: ms) = r.decodeMembers ms := by
  have hk : Field.ofName? k = none := by
    simpa [Field.ofName?, Field.mem_all] using h
  rw [decodeMembers, decodeMember, hk]
  rfl

theorem decodeMembers_cons_name (f : Field) : r.decodeMembers ((f.name, v) :: ms) =
    (f.decode v).bind fun x => (r.put f x).decodeMembers ms := by
  rw [decodeMembers, decodeMember, Field.ofName?_name]
  dsimp only
  cases f.decode v <;> rfl

/-- Of the fields that are at fault the first one by name is reported. -/
theorem decodeMembers_eq_error (h : Members.Ascending ms) :
    r.decodeMembers ms = .error e ↔ ∃ f : Field, f.read ms = .error e ∧
      ∀ (g : Field) d, g.read ms = .error d → f.name ≤ g.name := by
  induction ms generalizing r with
  | nil => exact ⟨nofun, nofun⟩
  | cons m ms ih =>
    obtain ⟨k, v⟩ := m
    obtain ⟨hfirst, hrest⟩ := List.pairwise_cons.1 h
    by_cases hk : ∀ f : Field, f.name ≠ k
    · simp only [decodeMembers_cons_of_ne hk, Field.read_cons_ne (hk _), ih hrest]
    · push Not at hk
      obtain ⟨f, rfl⟩ := hk
      rw [decodeMembers_cons_name]
      have hother : ∀ {g : Field}, g ≠ f → g.read ((f.name, v) :: ms) = g.read ms :=
        fun hg => Field.read_cons_ne fun hname => hg (Field.name_inj hname)
      cases hv : f.decode v with
      | error d =>
        -- The names behind this one are greater.
        have hself : f.read ((f.name, v) :: ms) = .error d := Field.read_cons_self.trans hv
        constructor
        · intro he
          cases he
          refine ⟨f, hself, fun g d' hg => ?_⟩
          by_cases hgf : g = f
          · rw [hgf]
          · rw [hother hgf] at hg
            exact (hfirst _ (Field.name_mem_of_read hg)).le
        · rintro ⟨g, hg, hleast⟩
          by_cases hgf : g = f
          · subst hgf
            rw [Except.error.inj (hself.symm.trans hg)]
            rfl
          · rw [hother hgf] at hg
            exact absurd (hfirst _ (Field.name_mem_of_read hg)) (hleast f d hself).not_gt
      | ok x =>
        have hsame : ∀ (g : Field) d, g.read ((f.name, v) :: ms) = .error d ↔
            g.read ms = .error d := by
          intro g d
          by_cases hgf : g = f
          · subst hgf
            rw [Field.read_cons_self, hv]
            exact ⟨nofun, fun hg => absurd (hfirst _ (Field.name_mem_of_read hg)) (lt_irrefl _)⟩
          · rw [hother hgf]
        simp only [hsame]
        exact ih hrest

theorem ofValue_eq_error (h : Members.Ascending ms) :
    ofValue (.object ms) = .error e ↔ ∃ f : Field, f.read ms = .error e ∧
      ∀ (g : Field) d, g.read ms = .error d → f.name ≤ g.name :=
  decodeMembers_eq_error h

theorem ofValue_eq_ok (h : Members.Ascending ms) :
    ofValue (.object ms) = .ok s ↔ ∀ f : Field, f.read ms = .ok (s.get f) := by
  refine ⟨ofValue_get h.nodup, fun hs => ?_⟩
  cases hr : ofValue (.object ms) with
  | error e =>
    obtain ⟨f, hf, -⟩ := (ofValue_eq_error h).1 hr
    cases (hs f).symm.trans hf
  | ok r =>
    have hget := ofValue_get h.nodup hr
    refine congrArg Except.ok (ext fun f => ?_)
    exact Except.ok.inj ((hget f).symm.trans (hs f))

/-- What the fields read is all that counts. -/
theorem ofValue_congr {ms' : List (String × Value)} (h : Members.Ascending ms)
    (h' : Members.Ascending ms') (hread : ∀ f : Field, f.read ms' = f.read ms) :
    ofValue (.object ms') = ofValue (.object ms) := by
  cases hr : ofValue (.object ms) with
  | error e =>
    rw [ofValue_eq_error h] at hr
    simpa only [ofValue_eq_error h', hread] using hr
  | ok r =>
    rw [ofValue_eq_ok h] at hr
    simpa only [ofValue_eq_ok h', hread] using hr

end Record

namespace Field

def bytes (f : Field) : List UInt8 := Utf8.encode f.name.toList

theorem bytes_le_iff {f g : Field} : f.bytes ≤ g.bytes ↔ f.name ≤ g.name :=
  Utf8.encode_le_iff

end Field

namespace Record

variable {depth : Nat} {members : List (List Piece × Tree)} {v : Value}

/-- An object is a record when its fields are absent, null or of their shapes, and the record has
what is told there. Of the fields that are not, the first by its bytes is reported. Nothing but what
stands last under the names of the fields has an influence. -/
theorem ofValue_object (h : (Tree.object members).value? (depth + 1) = some v) :
    ((∃ r, ofValue v = .ok r) ↔ ∀ f : Field, f.Takes (Tree.lastUnder f.name members)) ∧
    (∀ r, ofValue v = .ok r ↔ ∀ f : Field, f.Tells (Tree.lastUnder f.name members) (r.get f)) ∧
    (∀ e, ofValue v = .error e ↔ ∃ f : Field,
      (∃ t ∈ Tree.lastUnder f.name members, ∃ w, t.value? depth = some w ∧ w ≠ .null ∧
        f.shape.Fault w e) ∧
      ∀ g : Field, ¬g.Takes (Tree.lastUnder g.name members) → f.bytes ≤ g.bytes) ∧
    ∀ depth' members' v', (Tree.object members').value? (depth' + 1) = some v' →
      (∀ f : Field, Tree.lastUnder f.name members' = Tree.lastUnder f.name members) →
      ofValue v' = ofValue v := by
  obtain ⟨vs, hvs, rfl⟩ := Option.map_eq_some_iff.1 h
  have hascending := Members.ofList_ascending vs
  refine ⟨⟨?_, fun htakes => ?_⟩, fun r => ?_, fun e => ?_, fun depth' members' v' h' hlast => ?_⟩
  · rintro ⟨r, hr⟩ f
    exact (Field.takes_iff hvs).2 ⟨_, (ofValue_eq_ok hascending).1 hr f⟩
  · choose get hget using fun f => (Field.takes_iff hvs).1 (htakes f)
    exact ⟨⟨get⟩, (ofValue_eq_ok hascending).2 hget⟩
  · simp only [ofValue_eq_ok hascending, Field.read_eq_ok hvs]
  · simp only [ofValue_eq_error hascending, ← Field.read_eq_error hvs, Field.not_takes_iff hvs,
      Field.bytes_le_iff, forall_exists_index]
  · obtain ⟨vs', hvs', rfl⟩ := Option.map_eq_some_iff.1 h'
    exact ofValue_congr hascending (Members.ofList_ascending vs') fun f =>
      Field.read_eq_of_lastUnder hvs hvs' (hlast f)

/-- Of a port that is too great and a negative code the code is reported. The type counts as it
stands last, and what stands under another name does not count. -/
theorem ofValue_object_negative_code :
    let key (s : String) : List Piece := s.toList.map .char
    let members : List (List Piece × Tree) :=
      [(key "source-port", .number (.ofNat 70000)), (key "icmp-type", .string (key "echo")),
        (key "icmp-code", .number ⟨true, [1], [], none⟩), (key "zone", .array [.null]),
        (key "icmp-type", .number (.ofNat 8))]
    ∃ v, (Tree.object members).value? 127 = some v ∧
      ofValue v = .error (.outOfRange (.negative 1) (.field .u8)) := by
  intro key members
  have hvalue : ((Tree.object members).value? 127).isSome := by decide +kernel
  obtain ⟨v, hv⟩ := Option.isSome_iff_exists.1 hvalue
  refine ⟨v, hv, ((ofValue_object hv).2.2.1 _).2 ⟨.icmpCode,
    ⟨.number ⟨true, [1], [], none⟩, rfl, .number (.negative 1), rfl, nofun, .belowZero rfl⟩,
    fun g hg => ?_⟩⟩
  cases g <;> first
    | decide
    | exact absurd nofun hg

end Record
end FlowLog
