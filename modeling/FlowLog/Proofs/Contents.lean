import FlowLog.Proofs.Derivations
import FlowLog.Proofs.Objects
import Mathlib.Data.List.Forall2

/-! What a value says of the document that it is of. Whole numbers come from literals of digits
only, texts from strings, elements one by one; and of the members under one key the last is kept. -/

namespace FlowLog
namespace Json
namespace Numeral

/-- A literal of digits only that stands for the number. -/
structure Denotes (n : Numeral) (m : Nat) : Prop where
  unsigned : n.negative = false
  whole : Decimal.value n.whole = m
  fraction : n.fraction = []
  exponent : n.exponent = none

/-- Digits are taken in to the last only while the number fits. -/
theorem lt_of_absorb {s : Nat} {ds : List Nat} (hs : s < UInt64.size)
    (h : ds.length ≤ (absorb s ds).2) : ds.foldl (fun n d => 10 * n + d) s < UInt64.size := by
  induction ds generalizing s with
  | nil => exact hs
  | cons d ds ih =>
    rw [absorb, Nat.mul_comm] at h
    split at h
    · rename_i hfits
      exact ih hfits (Nat.le_of_succ_le_succ h)
    · exact absurd h (by simp)

theorem value?_eq_natural_iff {n : Numeral} {k : UInt64} :
    n.value? = some (.natural k) ↔ n.Denotes k.toNat := by
  constructor
  · intro h
    unfold value? at h
    dsimp only at h
    split at h
    · rename_i hwhole
      obtain ⟨hdropped, hfraction, hexponent⟩ := hwhole
      have hlt := lt_of_absorb (by decide) (Nat.le_of_sub_eq_zero hdropped)
      rw [absorb_eq hlt] at h
      split at h
      · rename_i hsign
        obtain rfl := Number.natural.inj (Option.some.inj h)
        refine ⟨by simpa using hsign, ?_, hfraction, hexponent⟩
        rw [Nat.toUInt64_eq, UInt64.toNat_ofNat_of_lt' hlt]
        rfl
      · split at h <;> cases h
    · obtain ⟨x, -, hx⟩ := Option.map_eq_some_iff.1 h
      cases hx
  · rintro ⟨hsign, hwhole, hfraction, hexponent⟩
    have hfits : n.whole.foldl (fun n d => 10 * n + d) 0 < UInt64.size :=
      hwhole.trans_lt k.toNat_lt
    have habsorb : absorb 0 n.whole = (k.toNat, n.whole.length) := by
      rw [absorb_eq hfits]
      exact congrArg (·, n.whole.length) hwhole
    simp [value?, habsorb, hsign, hfraction, hexponent]

end Numeral

namespace Tree

/-- A tree and a value that it has with some room, by the form that they share. -/
inductive Gives : Tree → Value → Prop
  | null : Gives .null .null
  | bool {b : Bool} : Gives (.bool b) (.bool b)
  | number {n : Numeral} {x : Number} : n.value? = some x → Gives (.number n) (.number x)
  | string {ps : List Piece} {x : String} : Quoted.text? ps = some x →
    Gives (.string ps) (.string x)
  | array {room : Nat} {ts : List Tree} {vs : List Value} : elements? room ts = some vs →
    Gives (.array ts) (.array vs)
  | object {room : Nat} {ms : List (List Piece × Tree)} {vs : List (String × Value)} :
    members? room ms = some vs → Gives (.object ms) (.object (Members.ofList vs))

theorem gives_of_value? {room : Nat} {t : Tree} {v : Value} (h : t.value? room = some v) :
    t.Gives v := by
  cases t with
  | null =>
    cases h
    exact .null
  | bool =>
    cases h
    exact .bool
  | number =>
    obtain ⟨x, hx, rfl⟩ := Option.map_eq_some_iff.1 h
    exact .number hx
  | string =>
    obtain ⟨x, hx, rfl⟩ := Option.map_eq_some_iff.1 h
    exact .string hx
  | array =>
    cases room with
    | zero => cases h
    | succ =>
      obtain ⟨vs, hvs, rfl⟩ := Option.map_eq_some_iff.1 h
      exact .array hvs
  | object =>
    cases room with
    | zero => cases h
    | succ =>
      obtain ⟨vs, hvs, rfl⟩ := Option.map_eq_some_iff.1 h
      exact .object hvs

/-- The room is only a bound: a tree has one value. -/
theorem value?_unique {room room' : Nat} {t : Tree} {v v' : Value} (h : t.value? room = some v)
    (h' : t.value? room' = some v') : v = v' := by
  have hdepth := value?_of_depth_le h le_rfl
  exact Option.some.inj (hdepth.symm.trans (value?_of_depth_le h' le_rfl))

theorem elements?_eq_some_iff {room : Nat} {ts : List Tree} {vs : List Value} :
    elements? room ts = some vs ↔ List.Forall₂ (fun t v => t.value? room = some v) ts vs := by
  induction ts generalizing vs with
  | nil => simp [elements?, eq_comm]
  | cons t ts ih =>
    simp only [elements?, Option.bind_eq_bind, Option.bind_eq_some_iff, ih,
      List.forall₂_cons_left_iff, Option.some.injEq]
    constructor
    · rintro ⟨v, hv, vs, hvs, rfl⟩
      exact ⟨v, vs, hv, hvs, rfl⟩
    · rintro ⟨v, vs, hv, hvs, rfl⟩
      exact ⟨v, hv, vs, hvs, rfl⟩

theorem members?_eq_some_iff {room : Nat} {ms : List (List Piece × Tree)}
    {vs : List (String × Value)} : members? room ms = some vs ↔
      List.Forall₂ (fun m w => Quoted.text? m.1 = some w.1 ∧ m.2.value? room = some w.2) ms vs := by
  induction ms generalizing vs with
  | nil => simp [members?, eq_comm]
  | cons m ms ih =>
    simp only [members?, Option.bind_eq_bind, Option.bind_eq_some_iff, ih,
      List.forall₂_cons_left_iff, Option.some.injEq, Prod.exists]
    constructor
    · rintro ⟨k, hk, v, hv, vs, hvs, rfl⟩
      exact ⟨k, v, vs, ⟨hk, hv⟩, hvs, rfl⟩
    · rintro ⟨k, v, vs, ⟨hk, hv⟩, hvs, rfl⟩
      exact ⟨k, hk, v, hv, vs, hvs, rfl⟩

def Spells (t : Tree) (x : String) : Prop := ∃ ps, t = .string ps ∧ Quoted.text? ps = some x

/-- Elements that have values are all strings when they spell texts one by one. -/
theorem exists_spells_iff {room : Nat} {ts : List Tree} {vs : List Value}
    (h : elements? room ts = some vs) :
    (∃ xs, List.Forall₂ Spells ts xs) ↔ ∀ t ∈ ts, ∃ ps, t = .string ps := by
  have helements := elements?_eq_some_iff.1 h
  clear h
  induction helements with
  | nil => exact ⟨fun _ _ ht => absurd ht List.not_mem_nil, fun _ => ⟨[], .nil⟩⟩
  | cons ht _ ih =>
    constructor
    · rintro ⟨_, hspells⟩
      obtain ⟨x, xs, ⟨ps, rfl, -⟩, hxs, -⟩ := List.forall₂_cons_left_iff.1 hspells
      exact List.forall_mem_cons.2 ⟨⟨ps, rfl⟩, ih.1 ⟨xs, hxs⟩⟩
    · intro hstrings
      obtain ⟨⟨ps, rfl⟩, hrest⟩ := List.forall_mem_cons.1 hstrings
      obtain ⟨x, hx, -⟩ := Option.map_eq_some_iff.1 ht
      obtain ⟨xs, hxs⟩ := ih.2 hrest
      exact ⟨x :: xs, .cons ⟨ps, rfl, hx⟩ hxs⟩

namespace Gives

variable {t : Tree} {v : Value}

theorem eq_null_iff (h : t.Gives v) : v = .null ↔ t = .null := by
  cases h <;> simp

theorem eq_ofNat_iff (h : t.Gives v) {m : Nat} (hm : m < UInt64.size) :
    v = .ofNat m ↔ ∃ n, t = .number n ∧ n.Denotes m := by
  cases h with
  | @number n x hx =>
    have hdenotes := Numeral.value?_eq_natural_iff (n := n) (k := m.toUInt64)
    rw [Nat.toUInt64_eq, UInt64.toNat_ofNat_of_lt' hm, hx, Option.some.injEq] at hdenotes
    rw [Value.ofNat, Value.number.injEq, Nat.toUInt64_eq, hdenotes]
    simp
  | _ => simp [Value.ofNat]

theorem eq_string_iff (h : t.Gives v) {x : String} : v = .string x ↔ t.Spells x := by
  cases h with
  | string hps => simp [Spells, hps, eq_comm]
  | _ => simp [Spells]

theorem eq_strings_iff (h : t.Gives v) {xs : List String} :
    v = .strings xs ↔ ∃ ts, t = .array ts ∧ List.Forall₂ Spells ts xs := by
  cases h with
  | @array room ts vs hvs =>
    simp only [Value.strings, Value.array.injEq, Tree.array.injEq, exists_eq_left']
    rw [elements?_eq_some_iff] at hvs
    induction hvs generalizing xs with
    | nil => cases xs <;> simp
    | @cons t v ts vs ht _ ih =>
      cases xs with
      | nil => simp
      | cons x xs =>
        rw [List.map_cons, List.cons.injEq, List.forall₂_cons]
        exact and_congr (gives_of_value? ht).eq_string_iff ih
  | _ => simp [Value.strings]

end Gives

def lastUnder (k : String) (ms : List (List Piece × Tree)) : Option Tree :=
  (ms.reverse.find? fun m => Quoted.text? m.1 = some k).map Prod.snd

end Tree

namespace Members

variable {α : Type}

theorem get?_insert (k l : String) (x : α) (ms : List (String × α)) :
    get? l (insert k x ms) = if l = k then some x else get? l ms := by
  induction ms with
  | nil => rfl
  | cons m ms ih =>
    obtain ⟨k', x'⟩ := m
    unfold insert
    split
    · rfl
    · split
      · rename_i heq
        subst heq
        simp only [get?]
        split <;> rfl
      · rename_i hne
        rw [get?, get?, ih]
        split
        · rename_i hl
          rw [if_neg (hl ▸ Ne.symm hne)]
        · rfl

theorem get?_ofList (k : String) (ms : List (String × α)) :
    get? k (ofList ms) = (ms.reverse.find? fun m => m.1 = k).map Prod.snd := by
  induction ms using List.reverseRecOn with
  | nil => rfl
  | append_singleton ms m ih =>
    rw [ofList, List.foldl_concat, get?_insert, List.reverse_concat, List.find?_cons]
    by_cases hk : k = m.1
    · simp [hk]
    · rw [if_neg hk]
      simp [Ne.symm hk, ← ih, ofList]

end Members

namespace Tree

/-- The member that an object keeps under a key is the last one. -/
theorem lastUnder_of_members? {room : Nat} {ms : List (List Piece × Tree)}
    {vs : List (String × Value)} (h : members? room ms = some vs) (k : String) :
    lastUnder k ms = none ∧ Members.get? k (Members.ofList vs) = none ∨
      ∃ t v, lastUnder k ms = some t ∧ Members.get? k (Members.ofList vs) = some v ∧
        t.value? room = some v := by
  rw [lastUnder, Members.get?_ofList]
  have hreverse := List.forall₂_reverse_iff.2 (members?_eq_some_iff.1 h)
  generalize ms.reverse = ms at hreverse
  generalize vs.reverse = vs at hreverse
  induction hreverse with
  | nil => exact .inl ⟨rfl, rfl⟩
  | @cons m w ms vs hm _ ih =>
    obtain ⟨hkey, hvalue⟩ := hm
    by_cases hk : w.1 = k
    · exact .inr ⟨m.2, w.2, by simp [hkey, hk], by simp [hk], hvalue⟩
    · simpa [hkey, hk] using ih

end Tree
end Json
end FlowLog
