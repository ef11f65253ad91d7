import FlowLog.Proofs.Documents

/-! Which tokens are a document. What the reader holds open accounts for every token it has passed, so
the tokens that give a tree are the tree's own and no others. The depth of a tree is the room that its
containers need: with that much, more room makes no difference to its value. -/

namespace FlowLog
namespace Json
namespace Tree

/-- Elements that have been read, each with the comma behind it. -/
def elementsRead (xs : List Tree) : List Token := xs.flatMap fun x => x.tokens ++ [.comma]

def membersRead (ms : List (List Piece × Tree)) : List Token :=
  ms.flatMap fun m => .string m.1 :: .colon :: m.2.tokens ++ [.comma]

theorem elementTokens_concat (xs : List Tree) (x : Tree) :
    elementTokens (xs ++ [x]) = elementsRead xs ++ x.tokens ++ [.closeArray] := by
  induction xs with
  | nil => rfl
  | cons y xs ih =>
    have hmore : moreElementTokens (xs ++ [x]) = .comma :: elementTokens (xs ++ [x]) := by
      cases xs <;> rfl
    rw [List.cons_append, elementTokens, hmore, ih]
    simp [elementsRead]

theorem memberTokens_concat (ms : List (List Piece × Tree)) (k : List Piece) (x : Tree) :
    memberTokens (ms ++ [(k, x)]) =
      membersRead ms ++ .string k :: .colon :: x.tokens ++ [.closeObject] := by
  induction ms with
  | nil => rfl
  | cons m ms ih =>
    have hmore : moreMemberTokens (ms ++ [(k, x)]) = .comma :: memberTokens (ms ++ [(k, x)]) := by
      cases ms <;> rfl
    rw [List.cons_append, memberTokens, hmore, ih]
    simp [membersRead]

/-- The tokens of an open container. -/
def Frame.passed : Frame → List Token
  | .array done => .openArray :: elementsRead done.reverse
  | .object done k => .openObject :: membersRead done.reverse ++ [.string k, .colon]

def passedAll (stack : List Frame) : List Token := stack.reverse.flatMap Frame.passed

@[simp] theorem passedAll_nil : passedAll [] = [] := rfl
@[simp] theorem passedAll_cons (f : Frame) (stack : List Frame) :
    passedAll (f :: stack) = passedAll stack ++ f.passed := by simp [passedAll]

/-- The tokens on the way to a state. -/
def State.passed : State → List Token
  | .value stack => passedAll stack
  | .element stack => passedAll stack ++ [.openArray]
  | .key stack done _ => passedAll stack ++ .openObject :: membersRead done.reverse
  | .colon stack done k => passedAll stack ++ .openObject :: membersRead done.reverse ++ [.string k]
  | .after stack x => passedAll stack ++ x.tokens

/-- An object counts as still empty only while it has no members. -/
def State.Sound : State → Prop
  | .key _ done first => first → done = []
  | _ => True

/-- A step from tokens that were passed to those and one more. -/
structure Passes (ts : List Token) (t : Token) (s : State) : Prop where
  sound : s.Sound
  passed : s.passed = ts ++ [t]

theorem begin?_passes {stack : List Frame} {t : Token} {s : State} (h : begin? stack t = some s) :
    Passes (passedAll stack) t s := by
  cases t with
  | openObject =>
    cases h
    exact ⟨fun _ => rfl, rfl⟩
  | null | bool | number | string | openArray =>
    cases h
    exact ⟨trivial, rfl⟩
  | _ => cases h

theorem follow?_passes {x : Tree} {stack : List Frame} {t : Token} {s : State}
    (h : follow? x stack t = some s) : Passes (passedAll stack ++ x.tokens) t s := by
  unfold follow? at h
  split at h <;> cases h
  case h_1 => exact ⟨trivial, by simp [State.passed, Frame.passed, elementsRead]⟩
  case h_2 =>
    refine ⟨trivial, ?_⟩
    rw [State.passed, tokens, List.reverse_cons, elementTokens_concat]
    simp [Frame.passed]
  case h_3 =>
    exact ⟨fun h => absurd h Bool.false_ne_true, by simp [State.passed, Frame.passed, membersRead]⟩
  case h_4 =>
    refine ⟨trivial, ?_⟩
    rw [State.passed, tokens, List.reverse_cons, memberTokens_concat]
    simp [Frame.passed]

theorem step?_passes {s s' : State} {t : Token} (hs : s.Sound) (h : step? s t = some s') :
    Passes s.passed t s' := by
  unfold step? at h
  split at h
  case h_1 => exact begin?_passes h
  case h_2 =>
    cases h
    exact ⟨trivial, by simp [State.passed, tokens, elementTokens]⟩
  case h_3 =>
    -- The array is open from here on, with nothing in it.
    have hbegin := begin?_passes h
    rw [passedAll_cons] at hbegin
    exact hbegin
  case h_4 =>
    cases h
    have hempty := hs rfl
    subst hempty
    exact ⟨trivial, by simp [State.passed, tokens, memberTokens, membersRead]⟩
  case h_5 =>
    cases h
    exact ⟨trivial, rfl⟩
  case h_7 =>
    cases h
    exact ⟨trivial, by simp [State.passed, Frame.passed]⟩
  case h_9 => exact follow?_passes h
  all_goals cases h

theorem run?_passed {s s' : State} {ts : List Token} (hs : s.Sound) (h : run? s ts = some s') :
    s'.passed = s.passed ++ ts := by
  induction ts generalizing s with
  | nil =>
    cases h
    exact (List.append_nil _).symm
  | cons t ts ih =>
    rw [run?_cons] at h
    obtain ⟨u, hstep, h⟩ := Option.bind_eq_some_iff.1 h
    have hu := step?_passes hs hstep
    rw [ih hu.sound h, hu.passed, List.append_assoc]
    rfl

/-- A tree is read from its own tokens only. -/
theorem ofTokens?_eq_some_iff {ts : List Token} {x : Tree} :
    ofTokens? ts = some x ↔ ts = x.tokens := by
  constructor
  · intro h
    unfold ofTokens? at h
    split at h
    · rename_i y hrun
      cases h
      exact (run?_passed (s := .value []) trivial hrun).symm
    · cases h
  · rintro rfl
    exact ofTokens?_tokens x

theorem read?_eq_some_iff {s : List Char} {x : Tree} :
    read? s = some x ↔ Token.lex s = some x.tokens := by
  rw [read?, Option.bind_eq_some_iff]
  simp only [ofTokens?_eq_some_iff]
  constructor
  · rintro ⟨ts, h, rfl⟩
    exact h
  · exact fun h => ⟨_, h, rfl⟩

mutual

/-- How many containers lie inside each other at most. -/
def depth : Tree → Nat
  | array xs => elementsDepth xs + 1
  | object ms => membersDepth ms + 1
  | _ => 0

def elementsDepth : List Tree → Nat
  | [] => 0
  | x :: xs => max (depth x) (elementsDepth xs)

def membersDepth : List (List Piece × Tree) → Nat
  | [] => 0
  | (_, x) :: ms => max (depth x) (membersDepth ms)

end

mutual

/-- Room for the depth of a tree is enough for the value that it has with other room. -/
theorem value?_of_depth_le {room room' : Nat} {x : Tree} {v : Value}
    (h : x.value? room = some v) (hdepth : x.depth ≤ room') : x.value? room' = some v := by
  cases x with
  | null | bool | number | string => exact h
  | array xs =>
    match room, room' with
    | 0, _ => cases h
    | _, 0 => simp [depth] at hdepth
    | room + 1, room' + 1 =>
      obtain ⟨vs, hvs, rfl⟩ := Option.map_eq_some_iff.1 h
      have hsame := elements?_of_depth_le hvs (Nat.le_of_succ_le_succ hdepth)
      exact Option.map_eq_some_iff.2 ⟨vs, hsame, rfl⟩
  | object ms =>
    match room, room' with
    | 0, _ => cases h
    | _, 0 => simp [depth] at hdepth
    | room + 1, room' + 1 =>
      obtain ⟨vs, hvs, rfl⟩ := Option.map_eq_some_iff.1 h
      have hsame := members?_of_depth_le hvs (Nat.le_of_succ_le_succ hdepth)
      exact Option.map_eq_some_iff.2 ⟨vs, hsame, rfl⟩

theorem elements?_of_depth_le {room room' : Nat} {xs : List Tree} {vs : List Value}
    (h : elements? room xs = some vs) (hdepth : elementsDepth xs ≤ room') :
    elements? room' xs = some vs := by
  cases xs with
  | nil => exact h
  | cons x xs =>
    obtain ⟨hx, hxs⟩ := Nat.max_le.1 hdepth
    simp only [elements?, Option.bind_eq_bind, Option.bind_eq_some_iff] at h ⊢
    obtain ⟨v, hv, us, hus, h⟩ := h
    exact ⟨v, value?_of_depth_le hv hx, us, elements?_of_depth_le hus hxs, h⟩

theorem members?_of_depth_le {room room' : Nat} {ms : List (List Piece × Tree)}
    {vs : List (String × Value)} (h : members? room ms = some vs)
    (hdepth : membersDepth ms ≤ room') : members? room' ms = some vs := by
  cases ms with
  | nil => exact h
  | cons m ms =>
    obtain ⟨k, x⟩ := m
    obtain ⟨hx, hms⟩ := Nat.max_le.1 hdepth
    simp only [members?, Option.bind_eq_bind, Option.bind_eq_some_iff] at h ⊢
    obtain ⟨key, hkey, v, hv, us, hus, h⟩ := h
    exact ⟨key, hkey, v, value?_of_depth_le hv hx, us, members?_of_depth_le hus hms, h⟩

end

end Tree
end Json
end FlowLog
