import FlowLog.Config
import FlowLog.Proofs.Contents
import FlowLog.Proofs.FileForms
import FlowLog.Proofs.Layout

/-! Configurations of any content. What an object gives by name and an array in declared order comes
to one list of settings with their contents, which are taken one after the other. When all of them
tell a value and none comes twice, each setting has the value that is told of it or else its default;
in every other case nothing of the content is kept. What is saved is always such a content. -/

namespace FlowLog

open Json

namespace Json.Tree

/-- The bytes are a text of the document. -/
def Written (t : Tree) (bs : List UInt8) : Prop :=
  ∃ cs, bs = Utf8.encode cs ∧ Token.lex cs = some t.tokens

/-- A number with nothing but its digits. -/
def Counts (t : Tree) (m : Nat) : Prop := ∃ n, t = .number n ∧ n.Denotes m

/-! What the readers of contents accept. -/

theorem string?_eq_some {t : Tree} {x : String} : t.string? = some x ↔ t.Spells x := by
  cases t <;> simp [string?, Spells]

theorem natural?_eq_some {t : Tree} {k : UInt64} : t.natural? = some k ↔ t.Counts k.toNat := by
  cases t with
  | number n =>
    simp only [Counts, number.injEq, exists_eq_left', ← Numeral.value?_eq_natural_iff, natural?]
    cases n.value? with
    | none => simp
    | some x => cases x <;> simp
  | _ => simp [Counts, natural?]

theorem port?_eq_some {t : Tree} {p : UInt16} : t.port? = some p ↔ t.Counts p.toNat := by
  simp only [port?, Option.bind_eq_bind, Option.bind_eq_some_iff, Option.ite_none_right_eq_some,
    Option.some.injEq, natural?_eq_some]
  constructor
  · rintro ⟨k, hk, hlt, rfl⟩
    rwa [Nat.toUInt16_eq, UInt16.toNat_ofNat_of_lt' hlt]
  · intro ht
    have hk : p.toNat.toUInt64.toNat = p.toNat :=
      UInt64.toNat_ofNat_of_lt' (p.toNat_lt.trans (by decide))
    refine ⟨p.toNat.toUInt64, hk.symm ▸ ht, hk.symm ▸ p.toNat_lt, ?_⟩
    simp

theorem list?_eq_some {α : Type} {f : Tree → Option α} {t : Tree} {xs : List α} :
    t.list? f = some xs ↔ ∃ ts, t = .array ts ∧ List.Forall₂ (fun t x => f t = some x) ts xs := by
  cases t with
  | array ts =>
    simp only [list?, array.injEq, exists_eq_left']
    induction ts generalizing xs with
    | nil => simp [eq_comm]
    | cons t ts ih =>
      simp only [List.mapM_cons, Option.bind_eq_bind, Option.bind_eq_some_iff, ih,
        List.forall₂_cons_left_iff, Option.pure_def, Option.some.injEq]
      constructor
      · rintro ⟨x, hx, xs, hxs, rfl⟩
        exact ⟨x, xs, hx, hxs, rfl⟩
      · rintro ⟨x, xs, hx, hxs, rfl⟩
        exact ⟨x, hx, xs, hxs, rfl⟩
  | _ => simp [list?]

theorem capacity?_eq_some {t : Tree} {v : Option UInt64} : t.capacity? = some v ↔
    v.elim (t = .null) (fun k => t.Counts k.toNat) := by
  cases t with
  | null => cases v <;> simp [capacity?, Counts]
  | _ => cases v <;> simp [capacity?, natural?_eq_some]

end Json.Tree

namespace Setting

abbrev Carrier : Setting → Type
  | focusAddresses => List String
  | httpPorts | httpsPorts => List UInt16
  | logLevel => String
  | channelCapacity => Option UInt64

/-- The value that a content stands for. -/
def Tells : (s : Setting) → Tree → s.Carrier → Prop
  | focusAddresses, t, xs => ∃ ts, t = .array ts ∧ List.Forall₂ Tree.Spells ts xs
  | httpPorts, t, ps => ∃ ts, t = .array ts ∧ List.Forall₂ (fun t p => t.Counts p.toNat) ts ps
  | httpsPorts, t, ps => ∃ ts, t = .array ts ∧ List.Forall₂ (fun t p => t.Counts p.toNat) ts ps
  | logLevel, t, x => t.Spells x
  | channelCapacity, t, v => v.elim (t = .null) fun k => t.Counts k.toNat

def read? : (s : Setting) → Tree → Option s.Carrier
  | focusAddresses, t => t.list? Tree.string?
  | httpPorts, t => t.list? Tree.port?
  | httpsPorts, t => t.list? Tree.port?
  | logLevel, t => t.string?
  | channelCapacity, t => t.capacity?

theorem read?_eq_some {s : Setting} {t : Tree} {v : s.Carrier} :
    s.read? t = some v ↔ s.Tells t v := by
  cases s with
  | focusAddresses => simp only [read?, Tells, Tree.list?_eq_some, Tree.string?_eq_some]
  | httpPorts => simp only [read?, Tells, Tree.list?_eq_some, Tree.port?_eq_some]
  | httpsPorts => simp only [read?, Tells, Tree.list?_eq_some, Tree.port?_eq_some]
  | logLevel => exact Tree.string?_eq_some
  | channelCapacity => exact Tree.capacity?_eq_some

theorem Tells.unique {s : Setting} {t : Tree} {v w : s.Carrier} (hv : s.Tells t v)
    (hw : s.Tells t w) : v = w :=
  Option.some.inj ((read?_eq_some.2 hv).symm.trans (read?_eq_some.2 hw))

/-- The contents that a list gives to the setting. -/
def among (s : Setting) (gs : List (Setting × Tree)) : List Tree :=
  (gs.filter fun g => g.1 = s).map Prod.snd

theorem among_concat (s : Setting) (gs : List (Setting × Tree)) (g : Setting × Tree) :
    s.among (gs ++ [g]) = if g.1 = s then s.among gs ++ [g.2] else s.among gs := by
  by_cases h : g.1 = s <;> simp [among, h]

theorem mem_among {s : Setting} {gs : List (Setting × Tree)} {t : Tree} :
    t ∈ s.among gs ↔ (s, t) ∈ gs := by simp [among]

/-- What a setting comes to that is given these contents: nothing, or the value of the only one. -/
inductive Yields (s : Setting) : List Tree → Option s.Carrier → Prop
  | missing : Yields s [] none
  | told {t : Tree} {v : s.Carrier} (h : s.Tells t v) : Yields s [t] (some v)

namespace Yields

variable {s : Setting} {ts : List Tree} {v : Option s.Carrier}

theorem length_le (h : s.Yields ts v) : ts.length ≤ 1 := by cases h <;> simp

theorem nil_iff (h : s.Yields ts v) : ts = [] ↔ v = none := by cases h <;> simp

theorem getD (h : s.Yields ts v) (w : s.Carrier) : ∀ t ∈ ts, s.Tells t (v.getD w) := by
  cases h with
  | missing => simp
  | told ht => simpa using ht

end Yields

end Setting

namespace Draft

variable {d e : Draft} {s : Setting} {gs : List (Setting × Tree)}

def get? (d : Draft) : (s : Setting) → Option s.Carrier
  | .focusAddresses => d.focusAddresses
  | .httpPorts => d.httpPorts
  | .httpsPorts => d.httpsPorts
  | .logLevel => d.logLevel
  | .channelCapacity => d.channelCapacity

def put (d : Draft) : (s : Setting) → s.Carrier → Draft
  | .focusAddresses, v => { d with focusAddresses := some v }
  | .httpPorts, v => { d with httpPorts := some v }
  | .httpsPorts, v => { d with httpsPorts := some v }
  | .logLevel, v => { d with logLevel := some v }
  | .channelCapacity, v => { d with channelCapacity := some v }

@[simp] theorem get?_empty (s : Setting) : empty.get? s = none := by cases s <;> rfl

@[simp] theorem get?_put_self (d : Draft) (s : Setting) (v : s.Carrier) :
    (d.put s v).get? s = some v := by cases s <;> rfl

@[simp] theorem get?_put_ne (d : Draft) {s s' : Setting} (v : s.Carrier) (h : s ≠ s') :
    (d.put s v).get? s' = d.get? s' := by
  cases s <;> cases s' <;> first | rfl | exact absurd rfl h

theorem has_eq (d : Draft) (s : Setting) : d.has s = (d.get? s).isSome := by cases s <;> rfl

theorem set?_eq_some {t : Tree} : d.set? s t = some e ↔ ∃ v, s.Tells t v ∧ d.put s v = e := by
  have hset : d.set? s t = (s.read? t).map (d.put s) := by cases s <;> rfl
  simp only [hset, Option.map_eq_some_iff, Setting.read?_eq_some]

/-- Takes a setting that has not been given before. -/
def take? (d : Draft) (g : Setting × Tree) : Option Draft :=
  if d.has g.1 then none else d.set? g.1 g.2

def takeAll? (d : Draft) (gs : List (Setting × Tree)) : Option Draft := gs.foldlM take? d

theorem take?_eq_some {t : Tree} : d.take? (s, t) = some e ↔
    d.get? s = none ∧ ∃ v, s.Tells t v ∧ d.put s v = e := by
  rw [take?, has_eq, ← set?_eq_some]
  cases d.get? s <;> simp

theorem takeAll?_concat {g : Setting × Tree} :
    d.takeAll? (gs ++ [g]) = (d.takeAll? gs).bind (take? · g) := by
  simp [takeAll?]

/-- Each setting has come to what was given of it. -/
theorem yields_of_takeAll? (h : empty.takeAll? gs = some d) (s : Setting) :
    s.Yields (s.among gs) (d.get? s) := by
  induction gs using List.reverseRecOn generalizing d with
  | nil =>
    cases h
    rw [get?_empty]
    exact .missing
  | append_singleton gs g ih =>
    obtain ⟨r, t⟩ := g
    rw [takeAll?_concat] at h
    obtain ⟨e, he, h⟩ := Option.bind_eq_some_iff.1 h
    obtain ⟨hnew, v, hv, rfl⟩ := take?_eq_some.1 h
    rw [Setting.among_concat]
    by_cases hr : r = s
    · subst hr
      simpa [(ih he).nil_iff.2 hnew] using .told hv
    · rw [if_neg hr, get?_put_ne _ _ hr]
      exact ih he

theorem exists_takeAll? (htold : ∀ g ∈ gs, ∃ v, g.1.Tells g.2 v)
    (honce : ∀ s : Setting, (s.among gs).length ≤ 1) : ∃ d, empty.takeAll? gs = some d := by
  induction gs using List.reverseRecOn with
  | nil => exact ⟨empty, rfl⟩
  | append_singleton gs g ih =>
    obtain ⟨r, t⟩ := g
    obtain ⟨htold, hg⟩ := List.forall_mem_append.1 htold
    obtain ⟨v, hv⟩ := hg (r, t) (List.mem_singleton_self _)
    simp only [Setting.among_concat] at honce
    have hbefore (s : Setting) : (s.among gs).length ≤ 1 := by
      have hs := honce s
      split at hs
      · rw [List.length_append] at hs
        omega
      · exact hs
    obtain ⟨d, hd⟩ := ih htold hbefore
    have hfirst : r.among gs = [] := by simpa using honce r
    have hnew : d.get? r = none := (yields_of_takeAll? hd r).nil_iff.1 hfirst
    refine ⟨d.put r v, ?_⟩
    rw [takeAll?_concat, hd]
    exact take?_eq_some.2 ⟨hnew, v, hv, rfl⟩

end Draft

namespace Json.Tree

/-- The settings that a document gives, with their contents. -/
def settings : Tree → List (Setting × Tree)
  | object ms => ms.filterMap fun m => ((Quoted.text? m.1).bind Setting.ofName?).map (·, m.2)
  | array xs => Setting.all.zip xs
  | _ => []

/-- An object with texts for names, or an array of no more elements than there are settings. -/
inductive Lists : Tree → Prop
  | object {ms : List (List Piece × Tree)} (h : ∀ m ∈ ms, (Quoted.text? m.1).isSome) :
    Lists (.object ms)
  | array {xs : List Tree} (h : xs.length ≤ Setting.all.length) : Lists (.array xs)

end Json.Tree

namespace Draft

variable {d e : Draft}

theorem readMembers?_eq_some {ms : List (List Piece × Tree)} : d.readMembers? ms = some e ↔
    (∀ m ∈ ms, (Quoted.text? m.1).isSome) ∧ d.takeAll? (Tree.object ms).settings = some e := by
  induction ms generalizing d with
  | nil => simp [readMembers?, Tree.settings, takeAll?]
  | cons m ms ih =>
    obtain ⟨k, t⟩ := m
    rw [readMembers?]
    cases hk : Quoted.text? k with
    | none => simp [hk]
    | some name =>
      cases hname : Setting.ofName? name with
      | none => simp [hk, hname, ih, Tree.settings]
      | some s =>
        have htake : d.take? (s, t) = if d.has s then none else d.set? s t := rfl
        by_cases hs : d.has s
        · simp [hk, hname, hs, Tree.settings, takeAll?, htake]
        · cases hset : d.set? s t <;>
            simp [hk, hname, hs, hset, ih, Tree.settings, takeAll?, htake]

theorem readElements?_eq_some {ss : List Setting} {xs : List Tree} (hss : ss.Nodup)
    (hnew : ∀ s ∈ ss, d.get? s = none) : d.readElements? ss xs = some e ↔
      xs.length ≤ ss.length ∧ d.takeAll? (ss.zip xs) = some e := by
  induction ss generalizing d xs with
  | nil => cases xs <;> simp [readElements?, takeAll?]
  | cons s ss ih =>
    cases xs with
    | nil => simp [readElements?, takeAll?]
    | cons x xs =>
      obtain ⟨hs, hss⟩ := List.nodup_cons.1 hss
      obtain ⟨hnone, hnew⟩ := List.forall_mem_cons.1 hnew
      have htake : d.take? (s, x) = d.set? s x := by simp [take?, has_eq, hnone]
      cases hset : d.set? s x with
      | none => simp [readElements?, takeAll?, htake, hset]
      | some d' =>
        obtain ⟨v, -, rfl⟩ := set?_eq_some.1 hset
        -- The settings that follow are others, so they are still to come.
        have hkept : ∀ s' ∈ ss, (d.put s v).get? s' = none := fun s' hs' =>
          (get?_put_ne d v fun h => hs (h ▸ hs')).trans (hnew s' hs')
        simp [readElements?, takeAll?, htake, hset, ih hss hkept]

theorem read?_eq_some {t : Tree} :
    read? t = some d ↔ t.Lists ∧ empty.takeAll? t.settings = some d := by
  cases t with
  | object ms =>
    rw [read?, readMembers?_eq_some]
    exact and_congr_left fun _ => ⟨.object, fun h => by cases h; assumption⟩
  | array xs =>
    rw [read?, readElements?_eq_some (by decide) fun s _ => get?_empty s]
    exact and_congr_left fun _ => ⟨.array, fun h => by cases h; assumption⟩
  | _ => exact ⟨nofun, fun h => nomatch h.1⟩

end Draft

namespace Config

/-- What makes a document no configuration: its form, a content of a setting that stands for no
value of it, or a setting that is given twice. -/
inductive Fault (t : Tree) : Prop
  | form (h : ¬t.Lists)
  | content {s : Setting} {x : Tree} (hgiven : (s, x) ∈ t.settings) (h : ∀ v, ¬s.Tells x v)
  | repeated {s : Setting} (h : 2 ≤ (s.among t.settings).length)

def get (c : Config) : (s : Setting) → s.Carrier
  | .focusAddresses => c.focusAddresses
  | .httpPorts => c.httpPorts
  | .httpsPorts => c.httpsPorts
  | .logLevel => c.logLevel
  | .channelCapacity => c.channelCapacity

theorem ext_get {c c' : Config} (h : ∀ s, c.get s = c'.get s) : c = c' := by
  cases c
  cases c'
  rw [mk.injEq]
  exact ⟨h .focusAddresses, h .httpPorts, h .httpsPorts, h .logLevel, h .channelCapacity⟩

theorem get_ofDraft (d : Draft) (s : Setting) :
    (ofDraft d).get s = (d.get? s).getD (standard.get s) := by cases s <;> rfl

/-- Each setting has the value that is told of it, or its default when nothing is. -/
def Follows (c : Config) (t : Tree) : Prop :=
  ∀ s : Setting, (s.among t.settings = [] → c.get s = standard.get s) ∧
    ∀ x ∈ s.among t.settings, s.Tells x (c.get s)

variable {t : Tree} {d : Draft} {bs : List UInt8}

theorem follows_of_read? (h : Draft.read? t = some d) : (ofDraft d).Follows t := by
  intro s
  have hyields := Draft.yields_of_takeAll? (Draft.read?_eq_some.1 h).2 s
  rw [get_ofDraft]
  exact ⟨fun hnil => by rw [hyields.nil_iff.1 hnil, Option.getD_none], hyields.getD _⟩

theorem not_fault_of_read? (h : Draft.read? t = some d) : ¬Fault t := by
  obtain ⟨hlists, htake⟩ := Draft.read?_eq_some.1 h
  intro hfault
  cases hfault with
  | form hform => exact hform hlists
  | @content s x hgiven hnone =>
    exact hnone _ ((follows_of_read? h s).2 x (Setting.mem_among.2 hgiven))
  | @repeated s htwice =>
    exact absurd (Draft.yields_of_takeAll? htake s).length_le (Nat.not_le.2 htwice)

theorem exists_read? (h : ¬Fault t) : ∃ d, Draft.read? t = some d := by
  have hlists : t.Lists := by
    by_contra hform
    exact h (.form hform)
  have htold : ∀ g ∈ t.settings, ∃ v, g.1.Tells g.2 v := by
    intro g hg
    by_contra hnone
    exact h (.content hg (not_exists.1 hnone))
  have honce (s : Setting) : (s.among t.settings).length ≤ 1 := by
    by_contra htwice
    exact h (.repeated (Nat.lt_of_not_le htwice))
  obtain ⟨d, hd⟩ := Draft.exists_takeAll? htold honce
  exact ⟨d, Draft.read?_eq_some.2 ⟨hlists, hd⟩⟩

/-- A port that is no whole number below 65536 is a fault wherever it stands. -/
theorem fault_of_port {s : Setting} (hs : s ∈ [.httpPorts, .httpsPorts]) {ts : List Tree} {x : Tree}
    (hgiven : (s, .array ts) ∈ t.settings) (hx : x ∈ ts) (h : ∀ m < UInt16.size, ¬x.Counts m) :
    Fault t := by
  have hnone : ∀ ps : List UInt16, ¬List.Forall₂ (fun t p => t.Counts p.toNat) ts ps := by
    intro ps hps
    obtain ⟨i, hi, rfl⟩ := List.getElem_of_mem hx
    exact h _ (UInt16.toNat_lt _) (hps.get hi (hps.length_eq ▸ hi))
  refine .content hgiven ?_
  simp only [List.mem_cons, List.not_mem_nil, or_false] at hs
  rcases hs with rfl | rfl <;> simpa [Setting.Tells] using hnone

theorem written_iff : t.Written bs ↔ Tree.ofBytes? bs = some t := by
  simp only [Tree.Written, Tree.ofBytes?, Option.bind_eq_some_iff, Utf8.decode_eq_some_iff,
    Tree.read?_eq_some_iff]

theorem read?_eq_some {c : Config} :
    read? bs = some c ↔ ∃ t, t.Written bs ∧ ∃ d, Draft.read? t = some d ∧ ofDraft d = c := by
  have hread : read? bs = (Tree.ofBytes? bs).bind fun t => (Draft.read? t).map ofDraft :=
    (Option.bind_assoc ..).symm
  rw [hread, Option.bind_eq_some_iff]
  simp only [written_iff, Option.map_eq_some_iff]

theorem load_of_not_fault (h : t.Written bs) (hfault : ¬Fault t) :
    (load (some bs)).Follows t := by
  obtain ⟨d, hd⟩ := exists_read? hfault
  rw [load, Option.bind_some, read?_eq_some.2 ⟨t, h, d, hd, rfl⟩]
  exact follows_of_read? hd

theorem load_of_fault (h : ∀ t, t.Written bs → Fault t) : load (some bs) = standard := by
  cases hread : read? bs with
  | none => rw [load, Option.bind_some, hread, Option.getD_none]
  | some c =>
    obtain ⟨t, ht, d, hd, -⟩ := read?_eq_some.1 hread
    exact absurd (h t ht) (not_fault_of_read? hd)

/-! Saving. -/

/-- The content that a setting is saved as. -/
def content (c : Config) : Setting → Value
  | .focusAddresses => .strings c.focusAddresses
  | .httpPorts => .array (c.httpPorts.map fun p => .ofNat p.toNat)
  | .httpsPorts => .array (c.httpsPorts.map fun p => .ofNat p.toNat)
  | .logLevel => .string c.logLevel
  | .channelCapacity => .ofOption (c.channelCapacity.map fun n => .ofNat n.toNat)

theorem toValue_eq (c : Config) :
    c.toValue = .object (Setting.all.map fun s => (s.name, c.content s)) := rfl

theorem content_plain (c : Config) (s : Setting) : Value.Plain 1 (c.content s) := by
  cases s with
  | focusAddresses => exact .array (List.forall_mem_map.2 fun x _ => .string 0 x)
  | httpPorts => exact .array (List.forall_mem_map.2 fun p _ => .natural 0 _)
  | httpsPorts => exact .array (List.forall_mem_map.2 fun p _ => .natural 0 _)
  | logLevel => exact .string 1 _
  | channelCapacity =>
    rw [content]
    cases c.channelCapacity with
    | none => exact .null 1
    | some n => exact .natural 1 _

theorem toValue_plain (c : Config) : Value.Plain 2 c.toValue := by
  rw [toValue_eq]
  exact .object (List.forall_mem_map.2 fun s _ => c.content_plain s)

theorem spells_string (x : String) : (Value.string x).tree.Spells x :=
  ⟨_, rfl, Quoted.text?_pieces x⟩

theorem counts_ofNat {m : Nat} (h : m < UInt64.size) : (Value.ofNat m).tree.Counts m := by
  have hdenotes := Numeral.value?_eq_natural_iff.1 (Numeral.value?_ofNat m.toUInt64)
  rw [← Number.numeral_natural, Nat.toUInt64_eq, UInt64.toNat_ofNat_of_lt' h] at hdenotes
  exact ⟨_, rfl, hdenotes⟩

theorem counts_port (p : UInt16) : (Value.ofNat p.toNat).tree.Counts p.toNat :=
  counts_ofNat (p.toNat_lt.trans (by decide))

theorem forall₂_elementTrees {α : Type} {write : α → Value} {R : Tree → α → Prop}
    (h : ∀ x, R (write x).tree x) (xs : List α) :
    List.Forall₂ R (Value.elementTrees (xs.map write)) xs := by
  induction xs with
  | nil => exact .nil
  | cons x xs ih => exact .cons (h x) ih

theorem tells_content (c : Config) (s : Setting) : s.Tells (c.content s).tree (c.get s) := by
  cases s with
  | focusAddresses => exact ⟨_, rfl, forall₂_elementTrees spells_string _⟩
  | httpPorts => exact ⟨_, rfl, forall₂_elementTrees counts_port _⟩
  | httpsPorts => exact ⟨_, rfl, forall₂_elementTrees counts_port _⟩
  | logLevel => exact spells_string c.logLevel
  | channelCapacity =>
    rw [content, get]
    cases c.channelCapacity with
    | none => rfl
    | some n => exact counts_ofNat n.toNat_lt

theorem tree_toValue (c : Config) : c.toValue.tree =
    .object (Setting.all.map fun s => (s.name.toList.map Quoted.piece, (c.content s).tree)) := by
  rw [toValue_eq, Value.tree, Value.memberTrees_eq, List.map_map]
  rfl

theorem settings_toValue (c : Config) :
    c.toValue.tree.settings = Setting.all.map fun s => (s, (c.content s).tree) := by
  have hname (s : Setting) : Setting.ofName? s.name = some s := by cases s <;> decide
  rw [tree_toValue, Tree.settings, List.filterMap_map]
  simp [Quoted.text?_pieces, hname]

theorem among_toValue (c : Config) (s : Setting) :
    s.among c.toValue.tree.settings = [(c.content s).tree] := by
  rw [settings_toValue]
  cases s <;> rfl

theorem written_save (c : Config) : c.toValue.tree.Written (Utf8.encode c.save.toList) :=
  ⟨_, rfl, Value.lex_prettyText c.toValue_plain⟩

theorem not_fault_toValue (c : Config) : ¬Fault c.toValue.tree := by
  intro hfault
  cases hfault with
  | form h =>
    rw [tree_toValue] at h
    exact h (.object (List.forall_mem_map.2 fun s _ => by simp [Quoted.text?_pieces]))
  | @content s x hgiven h =>
    rw [← Setting.mem_among, among_toValue, List.mem_singleton] at hgiven
    exact h _ (hgiven ▸ c.tells_content s)
  | repeated h =>
    rw [among_toValue] at h
    exact absurd h (by simp)

theorem load_save (c : Config) : load (some (Utf8.encode c.save.toList)) = c := by
  refine ext_get fun s => ?_
  have hfollows := (load_of_not_fault c.written_save c.not_fault_toValue s).2
  rw [among_toValue, List.forall_mem_singleton] at hfollows
  exact hfollows.unique (c.tells_content s)

/-- A content is followed setting by setting, or, when it is no document or one with a fault, not at
all; and what is saved is loaded again. -/
theorem load_all_or_nothing :
    (∀ bs t, t.Written bs → ¬Fault t → (load (some bs)).Follows t) ∧
      (∀ bs, (∀ t, t.Written bs → Fault t) → load (some bs) = standard) ∧
      ∀ c, load (some (Utf8.encode (save c).toList)) = c :=
  ⟨fun _ _ h hfault => load_of_not_fault h hfault, fun _ h => load_of_fault h, load_save⟩

/-- An object with a setting of another name, and an array whose last port is too great. -/
theorem load_all_or_nothing_mixed :
    let partly := Utf8.encode "\x7b\"other\":[[]], \"http_ports\":[1]\x7d".toList
    let spoiled := Utf8.encode "[[\"a\"],[80],[443,65536]]".toList
    (∃ t, t.Written partly ∧ ¬Fault t ∧ (load (some partly)).Follows t) ∧
      (∀ t, t.Written spoiled → Fault t) ∧ load (some spoiled) = standard := by
  intro partly spoiled
  let t : Tree := .object [("other".toList.map .char, .array [.array []]),
    ("http_ports".toList.map .char, .array [.number ⟨false, [1], [], none⟩])]
  have hwritten : t.Written partly := ⟨_, rfl, by decide +kernel⟩
  have hread : Draft.read? t = some ⟨none, some [1], none, none, none⟩ := by decide +kernel
  have hfault : ¬Fault t := not_fault_of_read? hread
  have hspoiled : ∀ t, t.Written spoiled → Fault t := by
    intro t ht
    by_contra hfault
    obtain ⟨d, hd⟩ := exists_read? hfault
    have hread : read? spoiled = none := by decide +kernel
    exact Option.some_ne_none _ ((read?_eq_some.2 ⟨t, ht, d, hd, rfl⟩).symm.trans hread)
  exact ⟨⟨t, hwritten, hfault, load_all_or_nothing.1 _ t hwritten hfault⟩, hspoiled,
    load_all_or_nothing.2.1 _ hspoiled⟩

end Config
end FlowLog
