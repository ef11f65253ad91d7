import FlowLog.Proofs.Lexemes

/-! Compact JSON text is read back. The text of a value is cut into the tokens of its tree, a tree is
put together again from its tokens, and its value is the one written, with the members of objects
in ascending order. Numbers are natural here and the nesting is no deeper than a reader allows. -/

namespace FlowLog
namespace Json

/-- The numeral that a number is written as. -/
def Number.numeral (n : Number) : Numeral :=
  ((Numeral.read? n.chars).map Prod.fst).getD ⟨false, [], [], none⟩

theorem Numeral.ends_nil : Ends [] := nofun

theorem Number.numeral_natural (n : UInt64) : numeral (.natural n) = .ofNat n.toNat := by
  have hread := Numeral.read?_chars n.toNat Numeral.ends_nil
  rw [List.append_nil] at hread
  rw [numeral, chars, hread]
  rfl

namespace Value

mutual

/-- The value as a document, its members in the order they have. -/
def tree : Value → Tree
  | null => .null
  | bool b => .bool b
  | number n => .number n.numeral
  | string s => .string (s.toList.map Quoted.piece)
  | array xs => .array (elementTrees xs)
  | object ms => .object (memberTrees ms)

def elementTrees : List Value → List Tree
  | [] => []
  | x :: xs => tree x :: elementTrees xs

def memberTrees : List (String × Value) → List (List Piece × Tree)
  | [] => []
  | (k, x) :: ms => (k.toList.map Quoted.piece, tree x) :: memberTrees ms

end

/-- A value without fractional and negative numbers whose containers are nested at most `depth`
deep. -/
inductive Plain : Nat → Value → Prop
  | null (depth : Nat) : Plain depth null
  | bool (depth : Nat) (b : Bool) : Plain depth (bool b)
  | natural (depth : Nat) (n : UInt64) : Plain depth (number (.natural n))
  | string (depth : Nat) (s : String) : Plain depth (string s)
  | array {depth : Nat} {xs : List Value} (h : ∀ x ∈ xs, Plain depth x) :
    Plain (depth + 1) (array xs)
  | object {depth : Nat} {ms : List (String × Value)} (h : ∀ m ∈ ms, Plain depth m.2) :
    Plain (depth + 1) (object ms)

theorem elementTrees_eq (xs : List Value) : elementTrees xs = xs.map tree := by
  induction xs <;> simp_all [elementTrees]

theorem memberTrees_eq (ms : List (String × Value)) :
    memberTrees ms = ms.map fun m => (m.1.toList.map Quoted.piece, m.2.tree) := by
  induction ms <;> simp_all [memberTrees]

end Value

/-! The text of a container is that of its items with a comma between any two, and so are its
tokens. -/

section
variable {α β : Type} {sep : β} {item : α → List β} {whole : List α → List β} {rest : List β}

theorem eq_intercalate_append (hnil : whole [] = rest) (hone : ∀ x, whole [x] = item x ++ rest)
    (hmore : ∀ x y xs, whole (x :: y :: xs) = item x ++ sep :: whole (y :: xs)) (xs : List α) :
    whole xs = [sep].intercalate (xs.map item) ++ rest := by
  induction xs with
  | nil => exact hnil
  | cons x xs ih =>
    cases xs with
    | nil => simp [hone]
    | cons y ys => simp [hmore, ih]

theorem eq_intercalate (hnil : whole [] = []) (hone : ∀ x, whole [x] = item x)
    (hmore : ∀ x y xs, whole (x :: y :: xs) = item x ++ sep :: whole (y :: xs)) (xs : List α) :
    whole xs = [sep].intercalate (xs.map item) := by
  simpa using eq_intercalate_append hnil (by simpa using hone) hmore xs

end

namespace Value

theorem compactElements_eq : ∀ xs : List Value,
    compactElements xs = [','].intercalate (xs.map compact) :=
  eq_intercalate rfl (fun _ => rfl) (fun _ _ _ => rfl)

def compactMember (m : String × Value) : List Char := quoted m.1 ++ ':' :: m.2.compact

theorem compactMembers_eq : ∀ ms : List (String × Value),
    compactMembers ms = [','].intercalate (ms.map compactMember) :=
  eq_intercalate rfl (fun _ => rfl) (fun m n ms => by simp [compactMembers, compactMember])

end Value

namespace Tree

theorem elementTokens_eq : ∀ xs : List Tree,
    elementTokens xs = [.comma].intercalate (xs.map tokens) ++ [.closeArray] :=
  eq_intercalate_append rfl (fun _ => rfl) (fun _ _ _ => rfl)

def oneMemberTokens (m : List Piece × Tree) : List Token := .string m.1 :: .colon :: m.2.tokens

theorem memberTokens_eq : ∀ ms : List (List Piece × Tree),
    memberTokens ms = [.comma].intercalate (ms.map oneMemberTokens) ++ [.closeObject] :=
  eq_intercalate_append rfl (fun _ => rfl) (fun _ _ _ => rfl)

end Tree

namespace Token

theorem lexOnto_quoted (done : List Token) (s : String) (rest : List Char) :
    lexOnto done (Value.quoted s ++ rest) =
      lexOnto (string (s.toList.map Quoted.piece) :: done) rest := by
  have hread : read? '"' (s.toList.flatMap Quoted.escape ++ '"' :: rest) =
      some (string (s.toList.map Quoted.piece), rest) := by
    rw [read?, Quoted.read?_escapes]
    rfl
  have hwritten : Value.quoted s ++ rest =
      '"' :: (s.toList.flatMap Quoted.escape ++ '"' :: rest) := by simp [Value.quoted, Quoted.write]
  rw [hwritten]
  exact lexOnto_cons done (by decide) hread

theorem read?_digit {c : Char} {d : Nat} (h : Decimal.digit? c = some d) (r : List Char) :
    read? c r = (Numeral.read? (c :: r)).map fun (n, rest) => (number n, rest) := by
  unfold read?
  split
  case h_11 => rfl
  all_goals cases h.symm.trans (by decide : _ = none)

theorem isBlank_digit {c : Char} {d : Nat} (h : Decimal.digit? c = some d) :
    isBlank c = false := by
  simp only [Decimal.digit?, Option.ite_none_right_eq_some] at h
  have hne {b : Char} (hb : b.toNat < 48) : c ≠ b := by
    rintro rfl
    omega
  simp [isBlank, hne (b := ' ') (by decide), hne (b := '\t') (by decide),
    hne (b := '\n') (by decide), hne (b := '\r') (by decide)]

theorem lexOnto_natural (done : List Token) (n : UInt64) {rest : List Char}
    (h : Numeral.Ends rest) : lexOnto done (Decimal.chars n.toNat ++ rest) =
      lexOnto (number (.ofNat n.toNat) :: done) rest := by
  have hnumeral := Numeral.read?_chars n.toNat h
  obtain ⟨d, ds, hds⟩ := List.exists_cons_of_ne_nil (Decimal.digits_ne_nil n.toNat)
  have hd : d < 10 := Decimal.digits_lt n.toNat d (by rw [hds]; exact List.mem_cons_self)
  have hdigit : Decimal.digit? (Decimal.digitChar d) = some d := Decimal.digit?_digitChar hd
  rw [Decimal.chars, hds, List.map_cons, List.cons_append] at hnumeral ⊢
  refine lexOnto_cons done (isBlank_digit hdigit) ?_
  rw [read?_digit hdigit, hnumeral]
  rfl

/-- A member is a key, a colon and a text, with blanks in front of the key and of the text. -/
theorem lex_member {gap gap' s : List Char} {ts : List Token} (hgap : ∀ b ∈ gap, isBlank b)
    (hgap' : ∀ b ∈ gap', isBlank b) (k : String) (h : lex s = some ts) :
    lex (gap ++ Value.quoted k ++ ':' :: (gap' ++ s)) =
      some (string (k.toList.map Quoted.piece) :: colon :: ts) := by
  have hcolon : (':', colon) ∈ marks := by decide
  have hs := lex_append [colon, string (k.toList.map Quoted.piece)] Numeral.stops_nil h
  rw [List.append_nil, lexOnto_nil] at hs
  rw [List.append_assoc, lex, lexOnto_blanks hgap, lexOnto_quoted, lexOnto_mark hcolon,
    lexOnto_blanks hgap', hs]
  simp

end Token

namespace Value

/-- The text of the value is cut into the tokens of its tree. -/
theorem lex_compact {depth : Nat} {v : Value} (h : Plain depth v) :
    Token.lex v.compact = some v.tree.tokens := by
  induction h with
  | null => exact (Token.lexOnto_cons [] (by decide) rfl).trans (Token.lexOnto_nil _)
  | bool _ b =>
    cases b <;> exact (Token.lexOnto_cons [] (by decide) rfl).trans (Token.lexOnto_nil _)
  | natural _ n =>
    have hlex := Token.lexOnto_natural [] n Numeral.ends_nil
    rw [List.append_nil, Token.lexOnto_nil] at hlex
    rw [tree, Number.numeral_natural]
    exact hlex
  | string _ s =>
    have hlex := Token.lexOnto_quoted [] s []
    rw [List.append_nil, Token.lexOnto_nil] at hlex
    exact hlex
  | array _ ih =>
    have hlex := Token.lex_brackets ih (List.forall_mem_nil _)
    rw [compact, compactElements_eq, tree, Tree.tokens, Tree.elementTokens_eq, elementTrees_eq]
    simpa [Function.comp_def] using hlex
  | @object _ ms _ ih =>
    have hitems : ∀ m ∈ ms, Token.lex (compactMember m) =
        some (Tree.oneMemberTokens (m.1.toList.map Quoted.piece, m.2.tree)) :=
      fun m hm => Token.lex_member (List.forall_mem_nil _) (List.forall_mem_nil _) m.1 (ih m hm)
    have hlex := Token.lex_braces hitems (List.forall_mem_nil _)
    rw [compact, compactMembers_eq, tree, Tree.tokens, Tree.memberTokens_eq, memberTrees_eq]
    simpa [Function.comp_def] using hlex

end Value

namespace Tree

theorem exists_tokens_cons (x : Tree) : ∃ t ts, x.tokens = t :: ts ∧ t ≠ .closeArray := by
  cases x <;> exact ⟨_, _, rfl, nofun⟩

/-- An element begins like any value. -/
theorem run?_element (stack : List Frame) (x : Tree) (ts : List Token) :
    run? (.element stack) (x.tokens ++ ts) = run? (.value (.array [] :: stack)) (x.tokens ++ ts) := by
  obtain ⟨t, us, hx, ht⟩ := exists_tokens_cons x
  rw [hx, List.cons_append, run?, run?, List.foldlM_cons, List.foldlM_cons]
  cases t with
  | closeArray => exact absurd rfl ht
  | _ => rfl

theorem run?_cons (s : State) (t : Token) (ts : List Token) :
    run? s (t :: ts) = (step? s t).bind (run? · ts) := rfl

mutual

/-- The tokens of a tree leave it complete on the stack that they found. -/
theorem run?_tokens (x : Tree) (stack : List Frame) :
    run? (.value stack) x.tokens = some (.after stack x) := by
  cases x with
  | null => rfl
  | bool b => rfl
  | number n => rfl
  | string s => rfl
  | array xs => exact run?_elementTokens xs stack
  | object ms => exact run?_memberTokens ms stack

theorem run?_elementTokens (xs : List Tree) (stack : List Frame) :
    run? (.element stack) (elementTokens xs) = some (.after stack (array xs)) := by
  cases xs with
  | nil => rfl
  | cons x xs =>
    rw [elementTokens, run?_element, run?_append, run?_tokens x, Option.bind_some,
      run?_moreElementTokens xs]
    rfl

theorem run?_moreElementTokens (xs : List Tree) (stack : List Frame) (done : List Tree)
    (x : Tree) : run? (.after (.array done :: stack) x) (moreElementTokens xs) =
      some (.after stack (array (done.reverse ++ x :: xs))) := by
  cases xs with
  | nil => simp [moreElementTokens, run?_cons, step?, follow?]
  | cons y xs =>
    rw [moreElementTokens, List.cons_append, run?_cons, step?, follow?, Option.bind_some,
      run?_append, run?_tokens y, Option.bind_some, run?_moreElementTokens xs]
    simp

theorem run?_memberTokens (ms : List (List Piece × Tree)) (stack : List Frame) :
    run? (.key stack [] true) (memberTokens ms) = some (.after stack (object ms)) := by
  cases ms with
  | nil => rfl
  | cons m ms =>
    obtain ⟨k, x⟩ := m
    rw [memberTokens, List.cons_append, List.cons_append, run?_cons, step?, Option.bind_some,
      run?_cons, step?, Option.bind_some, run?_append, run?_tokens x, Option.bind_some,
      run?_moreMemberTokens ms]
    rfl

theorem run?_moreMemberTokens (ms : List (List Piece × Tree)) (stack : List Frame)
    (done : List (List Piece × Tree)) (k : List Piece) (x : Tree) :
    run? (.after (.object done k :: stack) x) (moreMemberTokens ms) =
      some (.after stack (object (done.reverse ++ (k, x) :: ms))) := by
  cases ms with
  | nil => simp [moreMemberTokens, run?_cons, step?, follow?]
  | cons m ms =>
    obtain ⟨l, y⟩ := m
    rw [moreMemberTokens, List.cons_append, List.cons_append, List.cons_append, run?_cons, step?,
      follow?, Option.bind_some, run?_cons, step?, Option.bind_some, run?_cons, step?,
      Option.bind_some, run?_append, run?_tokens y, Option.bind_some, run?_moreMemberTokens ms]
    simp

end

theorem ofTokens?_tokens (x : Tree) : ofTokens? x.tokens = some x := by
  rw [ofTokens?, run?_tokens]

end Tree

namespace Value

theorem elements?_elementTrees {depth : Nat} {xs : List Value}
    (h : ∀ x ∈ xs, x.tree.value? depth = some x.sorted) :
    Tree.elements? depth (elementTrees xs) = some (sortedElements xs) := by
  induction xs with
  | nil => rfl
  | cons x xs ih =>
    have hx := h x List.mem_cons_self
    have hxs := ih fun y hy => h y (List.mem_cons_of_mem x hy)
    simp only [elementTrees, Tree.elements?, hx, hxs, Option.bind_eq_bind, Option.bind_some]
    rfl

theorem members?_memberTrees {depth : Nat} {ms : List (String × Value)}
    (h : ∀ m ∈ ms, m.2.tree.value? depth = some m.2.sorted) :
    Tree.members? depth (memberTrees ms) = some (sortedMembers ms) := by
  induction ms with
  | nil => rfl
  | cons m ms ih =>
    obtain ⟨k, x⟩ := m
    have hx := h (k, x) List.mem_cons_self
    have hms := ih fun n hn => h n (List.mem_cons_of_mem (k, x) hn)
    simp only [memberTrees, Tree.members?, Quoted.text?_pieces, hx, hms, Option.bind_eq_bind,
      Option.bind_some]
    rfl

theorem value?_tree {depth : Nat} {v : Value} (h : Plain depth v) :
    v.tree.value? depth = some v.sorted := by
  induction h with
  | null => simp [tree, Tree.value?, sorted]
  | bool => simp [tree, Tree.value?, sorted]
  | natural _ n => simp [tree, Tree.value?, sorted, Number.numeral_natural, Numeral.value?_ofNat]
  | string _ s => simp [tree, Tree.value?, sorted, Quoted.text?_pieces]
  | array _ ih => simp [tree, Tree.value?, sorted, elements?_elementTrees ih]
  | object _ ih => simp [tree, Tree.value?, sorted, members?_memberTrees ih]

/-- The text of a value is the document that the value is, its members in the order they have. -/
theorem treeRead?_compact {depth : Nat} {v : Value} (h : Plain depth v) :
    Tree.read? v.compact = some v.tree := by
  rw [Tree.read?, lex_compact h, Option.bind_some, Tree.ofTokens?_tokens]

/-- A reader gets the value that was written, its members put in order. -/
theorem read?_compact {v : Value} (h : Plain maxDepth v) : read? v.compact = some v.sorted := by
  rw [read?, treeRead?_compact h, Option.bind_some, value?_tree h]

/-! Controls are written as escapes only, so the text of a value stays on one line. -/

theorem le_of_mem_escape {c d : Char} (h : d ∈ Quoted.escape c) : 32 ≤ d.toNat := by
  have hdigit : ∀ n : Fin 16, 32 ≤ (Quotation.hexDigit n).toNat := by decide
  unfold Quoted.escape at h
  split at h
  case h_8 =>
    split at h
    · rename_i hc
      have hhigh := hdigit ⟨c.toNat / 16, by omega⟩
      have hlow := hdigit ⟨c.toNat % 16, by omega⟩
      simp only [List.mem_cons, List.not_mem_nil, or_false] at h
      rcases h with rfl | rfl | rfl | rfl | rfl | rfl
      · decide
      · decide
      · decide
      · decide
      · exact hhigh
      · exact hlow
    · rw [List.mem_singleton.1 h]
      omega
  all_goals
    simp only [List.mem_cons, List.not_mem_nil, or_false] at h
    rcases h with rfl | rfl <;> decide

theorem le_of_mem_quoted {s : String} {c : Char} (h : c ∈ quoted s) : 32 ≤ c.toNat := by
  simp only [quoted, Quoted.write, List.cons_append, List.mem_cons, List.mem_append,
    List.not_mem_nil, or_false] at h
  rcases h with rfl | h | rfl
  · decide
  · obtain ⟨d, -, hd⟩ := List.mem_flatMap.1 h
    exact le_of_mem_escape hd
  · decide

theorem le_of_mem_chars {n : Nat} {c : Char} (h : c ∈ Decimal.chars n) : 32 ≤ c.toNat := by
  obtain ⟨d, hd, rfl⟩ := List.mem_map.1 h
  rw [Decimal.digitChar_toNat (Decimal.digits_lt n d hd)]
  omega

theorem forall_mem_commas {p : Char → Prop} (hcomma : p ',') {texts : List (List Char)}
    (h : ∀ s ∈ texts, ∀ c ∈ s, p c) : ∀ c ∈ [','].intercalate texts, p c := by
  induction texts with
  | nil => exact List.forall_mem_nil _
  | cons s texts ih =>
    obtain ⟨hs, htexts⟩ := List.forall_mem_cons.1 h
    cases texts with
    | nil => simpa using hs
    | cons t texts =>
      rw [List.intercalate_cons_cons, List.forall_mem_append, List.forall_mem_append]
      exact ⟨⟨hs, List.forall_mem_singleton.2 hcomma⟩, ih htexts⟩

theorem le_of_mem_compact {depth : Nat} {v : Value} (h : Plain depth v) :
    ∀ c ∈ v.compact, 32 ≤ c.toNat := by
  induction h with
  | null => simp [compact]
  | bool _ b => cases b <;> simp [compact]
  | natural _ n => exact fun c hc => le_of_mem_chars hc
  | string _ s => exact fun c hc => le_of_mem_quoted hc
  | array _ ih =>
    rw [compact, compactElements_eq, List.cons_append, List.forall_mem_cons,
      List.forall_mem_append]
    exact ⟨by decide, forall_mem_commas (by decide) (List.forall_mem_map.2 ih),
      List.forall_mem_singleton.2 (by decide)⟩
  | @object _ ms _ ih =>
    have hitems : ∀ m ∈ ms, ∀ c ∈ compactMember m, 32 ≤ c.toNat := by
      intro m hm
      rw [compactMember, List.forall_mem_append, List.forall_mem_cons]
      exact ⟨fun c hc => le_of_mem_quoted hc, by decide, ih m hm⟩
    rw [compact, compactMembers_eq, List.cons_append, List.forall_mem_cons,
      List.forall_mem_append]
    exact ⟨by decide, forall_mem_commas (by decide) (List.forall_mem_map.2 hitems),
      List.forall_mem_singleton.2 (by decide)⟩

theorem newline_notMem_compact {depth : Nat} {v : Value} (h : Plain depth v) :
    '\n' ∉ v.compact := by
  intro hmem
  exact absurd (le_of_mem_compact h '\n' hmem) (by decide)

end Value
end Json
end FlowLog
