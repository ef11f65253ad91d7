import FlowLog.Proofs.Spelling

/-! Where tokens end. A token is cut off in the same way whatever follows it, as long as what follows
cannot continue a numeral; so texts that are read one by one are also read where they stand next to
each other, with marks and blanks between them, and blanks around a text change nothing. -/

namespace FlowLog
namespace Decimal

theorem run_append (s : List Char) {rest : List Char} (h : ∀ c ∈ rest.head?, digit? c = none) :
    run (s ++ rest) = ((run s).1, (run s).2 ++ rest) := by
  induction s with
  | nil => cases rest with
    | nil => rfl
    | cons c r =>
      have hc : digit? c = none := h c rfl
      simp [run, hc]
  | cons c s ih =>
    rw [List.cons_append, run, run]
    cases digit? c with
    | none => rfl
    | some d => simp only [ih]

theorem some?_append (s : List Char) {rest : List Char} (h : ∀ c ∈ rest.head?, digit? c = none) :
    some? (s ++ rest) = (some? s).map fun r => (r.1, r.2 ++ rest) := by
  rw [some?, some?, run_append s h]
  dsimp only
  split <;> rfl

end Decimal

namespace Json
namespace Numeral

/-- A text whose first character occurs in no numeral. -/
def Stops (rest : List Char) : Prop :=
  ∀ c ∈ rest.head?, Decimal.digit? c = none ∧ c ∉ ['.', 'e', 'E', '+', '-']

theorem stops_nil : Stops [] := nofun

theorem stops_cons {c : Char} (h : Decimal.digit? c = none ∧ c ∉ ['.', 'e', 'E', '+', '-'])
    (rest : List Char) : Stops (c :: rest) := by
  intro d hd
  cases hd
  exact h

section
variable {rest : List Char} (hrest : Stops rest)
include hrest

theorem Stops.digit : ∀ c ∈ rest.head?, Decimal.digit? c = none := fun c hc => (hrest c hc).1

theorem Stops.ne {c : Char} (hc : c ∈ ['.', 'e', 'E', '+', '-']) (r : List Char) :
    rest ≠ c :: r := by
  rintro rfl
  exact (hrest c rfl).2 hc

theorem Stops.ends : Ends rest := by
  intro c hc
  obtain ⟨hdigit, hmark⟩ := hrest c hc
  simp only [List.mem_cons, List.not_mem_nil, or_false, not_or] at hmark
  exact ⟨hdigit, hmark.1, hmark.2.1, hmark.2.2.1⟩

theorem whole?_append (s : List Char) :
    whole? (s ++ rest) = (whole? s).map fun r => (r.1, r.2 ++ rest) := by
  have hsome := Decimal.some?_append s hrest.digit
  rw [whole?.eq_def, whole?.eq_def]
  split
  · rename_i r he
    cases s with
    | nil =>
      rw [List.nil_append] at he
      subst he
      exact absurd (hrest '0' rfl).1 (by decide)
    | cons c s =>
      obtain ⟨rfl, rfl⟩ := List.cons.inj he
      rfl
  · rename_i hzero
    split
    · exact absurd rfl (hzero _)
    · exact hsome

theorem fraction?_append (s : List Char) :
    fraction? (s ++ rest) = (fraction? s).map fun r => (r.1, r.2 ++ rest) := by
  cases s with
  | nil => exact fraction?_of_ends hrest.ends
  | cons c s =>
    by_cases hc : c = '.'
    · subst hc
      exact Decimal.some?_append s hrest.digit
    · rw [List.cons_append, fraction?.eq_def, fraction?.eq_def]
      split
      · rename_i he
        exact absurd (List.cons.inj he).1 hc
      · split
        · rename_i he
          exact absurd (List.cons.inj he).1 hc
        · rfl

theorem exponentSign_append (s : List Char) :
    exponentSign (s ++ rest) = ((exponentSign s).1, (exponentSign s).2 ++ rest) := by
  cases s with
  | nil =>
    rw [List.nil_append, exponentSign.eq_def]
    split
    · exact absurd rfl (hrest.ne (by decide) _)
    · exact absurd rfl (hrest.ne (by decide) _)
    · rfl
  | cons c s =>
    by_cases hminus : c = '-'
    · subst hminus
      rfl
    by_cases hplus : c = '+'
    · subst hplus
      rfl
    simp [exponentSign, hminus, hplus]

theorem exponent?_append (s : List Char) :
    exponent? (s ++ rest) = (exponent? s).map fun r => (r.1, r.2 ++ rest) := by
  cases s with
  | nil => exact exponent?_of_ends hrest.ends
  | cons c s =>
    rw [List.cons_append, exponent?, exponent?]
    split
    · rw [exponentSign_append hrest s, Decimal.some?_append _ hrest.digit, Option.map_map,
        Option.map_map]
      rfl
    · rfl

theorem unsigned?_append (negative : Bool) (s : List Char) :
    unsigned? negative (s ++ rest) = (unsigned? negative s).map fun r => (r.1, r.2 ++ rest) := by
  rw [unsigned?, unsigned?, whole?_append hrest]
  cases whole? s with
  | none => rfl
  | some r =>
    obtain ⟨whole, s⟩ := r
    simp only [Option.map_some, Option.bind_eq_bind, Option.bind_some, fraction?_append hrest]
    cases fraction? s with
    | none => rfl
    | some r =>
      obtain ⟨fraction, s⟩ := r
      simp only [Option.map_some, Option.bind_some, exponent?_append hrest]
      cases exponent? s <;> rfl

theorem read?_append (s : List Char) :
    read? (s ++ rest) = (read? s).map fun r => (r.1, r.2 ++ rest) := by
  cases s with
  | nil =>
    rw [List.nil_append, read?.eq_def]
    split
    · exact absurd rfl (hrest.ne (by decide) _)
    · exact unsigned?_append hrest false []
  | cons c s =>
    by_cases hc : c = '-'
    · subst hc
      exact unsigned?_append hrest true s
    · have hsign (t : List Char) : read? (c :: t) = unsigned? false (c :: t) := by
        rw [read?.eq_def]
        split
        · rename_i he
          exact absurd (List.cons.inj he).1 hc
        · rfl
      rw [List.cons_append, hsign, hsign]
      exact unsigned?_append hrest false (c :: s)

end

end Numeral

namespace Quoted

theorem hexValue?_control {c : Char} (hc : c.toNat < 32) : hexValue? c = none := by
  rw [hexValue?, if_neg (by omega), if_neg (by omega), if_neg (by omega)]

theorem named?_control {c : Char} (hc : c.toNat < 32) : named? c = none := by
  unfold named?
  split
  case h_9 => rfl
  all_goals exact absurd hc (by decide)

theorem unit?_written {a b c d : Char} {n : Nat} (h : unit? a b c d = some n) :
    ∀ x ∈ [a, b, c, d], 32 ≤ x.toNat := by
  intro x hx
  by_contra hlt
  have hnone := hexValue?_control (Nat.lt_of_not_le hlt)
  simp only [unit?, Option.bind_eq_bind, Option.bind_eq_some_iff] at h
  obtain ⟨_, ha, _, hb, _, hc, _, hd, -⟩ := h
  simp only [List.mem_cons, List.not_mem_nil, or_false] at hx
  rcases hx with rfl | rfl | rfl | rfl <;> simp_all

/-- A string is read up to a quote, whatever follows it, and no control stands in it. -/
theorem read?_local {s r : List Char} {ps : List Piece} (h : read? s = some (ps, r)) :
    ∃ body, s = body ++ '"' :: r ∧ (∀ c ∈ body, 32 ≤ c.toNat) ∧
      ∀ t, read? (body ++ '"' :: t) = some (ps, t) := by
  fun_induction read? s generalizing ps r with
  | case1 r =>
    cases h
    exact ⟨[], rfl, List.forall_mem_nil _, fun t => rfl⟩
  | case2 a b c d s ih =>
    simp only [Option.bind_eq_bind, Option.bind_eq_some_iff, Option.some.injEq, Prod.mk.injEq,
      Prod.exists] at h
    obtain ⟨n, hn, qs, _, hqs, rfl, rfl⟩ := h
    obtain ⟨body, rfl, hwritten, hbody⟩ := ih hqs
    refine ⟨'\\' :: 'u' :: ([a, b, c, d] ++ body), rfl, ?_, fun t => ?_⟩
    · rw [List.forall_mem_cons, List.forall_mem_cons, List.forall_mem_append]
      exact ⟨by decide, by decide, unit?_written hn, hwritten⟩
    · simp only [List.cons_append, List.nil_append, read?, hn, hbody, Option.bind_eq_bind,
        Option.bind_some]
  | case3 e s _ ih =>
    simp only [Option.bind_eq_bind, Option.bind_eq_some_iff, Option.some.injEq, Prod.mk.injEq,
      Prod.exists] at h
    obtain ⟨c, hc, qs, _, hqs, rfl, rfl⟩ := h
    obtain ⟨body, rfl, hwritten, hbody⟩ := ih hqs
    have hunit : e ≠ 'u' := by
      rintro rfl
      cases hc
    have he : 32 ≤ e.toNat := by
      by_contra hlt
      simp [named?_control (Nat.lt_of_not_le hlt)] at hc
    refine ⟨'\\' :: e :: body, rfl, ?_, fun t => ?_⟩
    · exact List.forall_mem_cons.2 ⟨by decide, List.forall_mem_cons.2 ⟨he, hwritten⟩⟩
    · rw [List.cons_append, List.cons_append, read?_letter hunit hc, hbody]
      rfl
  | case4 => cases h
  | case5 c s hquote _ _ hwritten ih =>
    simp only [Option.bind_eq_bind, Option.bind_eq_some_iff, Option.some.injEq, Prod.mk.injEq,
      Prod.exists] at h
    obtain ⟨qs, _, hqs, rfl, rfl⟩ := h
    obtain ⟨body, rfl, hrest, hbody⟩ := ih hqs
    obtain ⟨hcontrol, hslash⟩ := not_or.1 hwritten
    refine ⟨c :: body, rfl, ?_, fun t => ?_⟩
    · exact List.forall_mem_cons.2 ⟨Nat.le_of_not_lt hcontrol, hrest⟩
    · rw [List.cons_append, read?_plain hquote hslash (Nat.le_of_not_lt hcontrol), hbody]
      rfl
  | case6 => cases h

end Quoted

namespace Token

theorem lexOnto_nil (done : List Token) : lexOnto done [] = some done.reverse := by rw [lexOnto]

theorem lexOnto_cons {c : Char} {r rest : List Char} {t : Token} (done : List Token)
    (hc : isBlank c = false) (h : read? c r = some (t, rest)) :
    lexOnto done (c :: r) = lexOnto (t :: done) rest := by
  rw [lexOnto, hc, if_neg Bool.false_ne_true]
  split
  · rename_i hnone
    rw [h] at hnone
    cases hnone
  · rename_i hsome
    rw [h] at hsome
    cases hsome
    rfl

theorem after?_eq_some_iff {w s rest : List Char} : after? w s = some rest ↔ s = w ++ rest := by
  refine ⟨after?_eq, ?_⟩
  rintro rfl
  induction w with
  | nil => rfl
  | cons c w ih => rw [List.cons_append, after?, if_pos rfl, ih]

theorem word_append {w s r rest : List Char} {t u : Token}
    (h : (after? w s).map (t, ·) = some (u, r)) :
    (after? w (s ++ rest)).map (t, ·) = some (u, r ++ rest) := by
  obtain ⟨r, hr, he⟩ := Option.map_eq_some_iff.1 h
  cases he
  rw [after?_eq_some_iff.1 hr, List.append_assoc, after?_eq_some_iff.2 rfl]
  rfl

/-- A token is read whatever follows the text, unless a numeral would go on. -/
theorem read?_append {c : Char} {s r rest : List Char} {t : Token} (hrest : Numeral.Stops rest)
    (h : read? c s = some (t, r)) : read? c (s ++ rest) = some (t, r ++ rest) := by
  unfold read? at h ⊢
  split at h
  case h_7 =>
    obtain ⟨⟨ps, r⟩, hread, he⟩ := Option.map_eq_some_iff.1 h
    obtain ⟨body, rfl, -, hbody⟩ := Quoted.read?_local hread
    cases he
    simp only [List.append_assoc, List.cons_append, hbody, Option.map_some]
  case h_8 | h_9 | h_10 => exact word_append h
  case h_11 =>
    obtain ⟨⟨n, r⟩, hread, he⟩ := Option.map_eq_some_iff.1 h
    cases he
    rw [← List.cons_append, Numeral.read?_append hrest, hread]
    rfl
  all_goals
    cases h
    rfl

theorem lexOnto_blank {c : Char} (done : List Token) (hc : isBlank c) (s : List Char) :
    lexOnto done (c :: s) = lexOnto done s := by
  rw [lexOnto, if_pos hc]

/-- A text is cut at its first character: a blank is passed over, and anything else begins a token. -/
theorem lexOnto_cons_eq_some {c : Char} {s : List Char} {done ts : List Token} :
    lexOnto done (c :: s) = some ts ↔
      isBlank c ∧ lexOnto done s = some ts ∨
      isBlank c = false ∧ ∃ t r, read? c s = some (t, r) ∧ lexOnto (t :: done) r = some ts := by
  cases hc : isBlank c with
  | true => simp [lexOnto_blank done hc]
  | false =>
    simp only [Bool.false_eq_true, false_and, false_or, true_and]
    constructor
    · intro h
      rw [lexOnto, if_neg (by simp [hc])] at h
      split at h
      · cases h
      · rename_i t r hread
        exact ⟨t, r, hread, h⟩
    · rintro ⟨t, r, hread, h⟩
      rw [lexOnto_cons done hc hread, h]

/-- The tokens of a text are read off before what follows it is looked at, whatever stood before. -/
theorem lexOnto_append {s rest : List Char} {done ts : List Token} (before : List Token)
    (hrest : Numeral.Stops rest) (h : lexOnto done s = some ts) :
    lexOnto (done ++ before) (s ++ rest) = lexOnto (ts.reverse ++ before) rest := by
  match s with
  | [] =>
    rw [lexOnto_nil] at h
    cases h
    rw [List.nil_append, List.reverse_reverse]
  | c :: s =>
    rcases lexOnto_cons_eq_some.1 h with ⟨hc, h⟩ | ⟨hc, t, r, hread, h⟩
    · rw [List.cons_append, lexOnto_blank _ hc]
      exact lexOnto_append before hrest h
    · have hlength := read?_length hread
      rw [List.cons_append, lexOnto_cons _ hc (read?_append hrest hread)]
      exact lexOnto_append before hrest h
termination_by s.length

theorem lex_append {s rest : List Char} {ts : List Token} (before : List Token)
    (hrest : Numeral.Stops rest) (h : lex s = some ts) :
    lexOnto before (s ++ rest) = lexOnto (ts.reverse ++ before) rest :=
  lexOnto_append before hrest h

/-! Texts between marks, with a comma between any two. -/

theorem lexOnto_blanks {gap : List Char} (hgap : ∀ b ∈ gap, isBlank b) (done : List Token)
    (s : List Char) : lexOnto done (gap ++ s) = lexOnto done s := by
  induction gap with
  | nil => rfl
  | cons b gap ih =>
    obtain ⟨hb, hgap⟩ := List.forall_mem_cons.1 hgap
    rw [List.cons_append, lexOnto_blank done hb, ih hgap]

/-- The characters that are a token each. -/
def marks : List (Char × Token) :=
  [('[', openArray), (']', closeArray), ('\x7b', openObject), ('\x7d', closeObject), (',', comma),
    (':', colon)]

theorem lexOnto_mark {c : Char} {t : Token} (h : (c, t) ∈ marks) (done : List Token)
    (r : List Char) : lexOnto done (c :: r) = lexOnto (t :: done) r := by
  simp only [marks, List.mem_cons, Prod.mk.injEq, List.not_mem_nil, or_false] at h
  rcases h with ⟨rfl, rfl⟩ | ⟨rfl, rfl⟩ | ⟨rfl, rfl⟩ | ⟨rfl, rfl⟩ | ⟨rfl, rfl⟩ | ⟨rfl, rfl⟩ <;>
    exact lexOnto_cons done (by decide) rfl

theorem stops_mark {c : Char} {t : Token} (h : (c, t) ∈ marks) (r : List Char) :
    Numeral.Stops (c :: r) := by
  have hall : ∀ m ∈ marks,
      Decimal.digit? m.1 = none ∧ m.1 ∉ ['.', 'e', 'E', '+', '-'] := by decide
  exact Numeral.stops_cons (hall (c, t) h) r

theorem stops_blank {b : Char} (hb : isBlank b) (r : List Char) : Numeral.Stops (b :: r) := by
  simp only [isBlank, Bool.or_eq_true, beq_iff_eq] at hb
  rcases hb with ((rfl | rfl) | rfl) | rfl <;> exact Numeral.stops_cons (by decide) r

section
variable {α : Type} {text : α → List Char} {tokens : α → List Token} {xs : List α}
  (h : ∀ x ∈ xs, lex (text x) = some (tokens x))
include h

theorem lexOnto_intercalate (before : List Token) {rest : List Char}
    (hrest : Numeral.Stops rest) :
    lexOnto before ([','].intercalate (xs.map text) ++ rest) =
      lexOnto (([comma].intercalate (xs.map tokens)).reverse ++ before) rest := by
  induction xs generalizing before with
  | nil => rfl
  | cons x xs ih =>
    obtain ⟨hx, hxs⟩ := List.forall_mem_cons.1 h
    cases xs with
    | nil => simpa using lex_append before hrest hx
    | cons y ys =>
      have hsplit : [','].intercalate ((x :: y :: ys).map text) ++ rest =
          text x ++ ',' :: ([','].intercalate ((y :: ys).map text) ++ rest) := by simp
      have hcomma : (',', comma) ∈ marks := by decide
      rw [hsplit, lex_append before (stops_mark hcomma _) hx, lexOnto_mark hcomma, ih hxs]
      simp

/-- The text of a container is cut into the tokens of its items, the commas and the brackets. -/
theorem lex_enclosed {o c : Char} {t u : Token} {gap : List Char} (ho : (o, t) ∈ marks)
    (hc : (c, u) ∈ marks) (hgap : ∀ b ∈ gap, isBlank b) :
    lex (o :: [','].intercalate (xs.map text) ++ gap ++ [c]) =
      some (t :: [comma].intercalate (xs.map tokens) ++ [u]) := by
  have hrest : Numeral.Stops (gap ++ [c]) := by
    cases gap with
    | nil => exact stops_mark hc []
    | cons b gap => exact stops_blank (hgap b List.mem_cons_self) _
  rw [List.append_assoc, List.cons_append, lex, lexOnto_mark ho, lexOnto_intercalate h _ hrest,
    lexOnto_blanks hgap, lexOnto_mark hc, lexOnto_nil]
  simp

theorem lex_brackets {gap : List Char} (hgap : ∀ b ∈ gap, isBlank b) :
    lex ('[' :: [','].intercalate (xs.map text) ++ gap ++ [']']) =
      some (openArray :: [comma].intercalate (xs.map tokens) ++ [closeArray]) :=
  lex_enclosed h (by decide) (by decide) hgap

theorem lex_braces {gap : List Char} (hgap : ∀ b ∈ gap, isBlank b) :
    lex ('\x7b' :: [','].intercalate (xs.map text) ++ gap ++ ['\x7d']) =
      some (openObject :: [comma].intercalate (xs.map tokens) ++ [closeObject]) :=
  lex_enclosed h (by decide) (by decide) hgap

end

theorem lexOnto_prefix {s : List Char} {done ts : List Token} (h : lexOnto done s = some ts) :
    done.reverse <+: ts := by
  match s with
  | [] =>
    rw [lexOnto_nil] at h
    cases h
    exact List.prefix_refl _
  | c :: s =>
    rcases lexOnto_cons_eq_some.1 h with ⟨-, h⟩ | ⟨-, t, r, hread, h⟩
    · exact lexOnto_prefix h
    · have hlength := read?_length hread
      have hmore := lexOnto_prefix h
      rw [List.reverse_cons] at hmore
      exact (List.prefix_append _ _).trans hmore
termination_by s.length

/-! Blanks around a text. A form feed counts as one where lines are trimmed, but no token begins with
it. -/

def margin : List Char := [' ', '\t', '\n', '\x0c', '\r']

theorem read?_formFeed (s : List Char) : read? '\x0c' s = none := by
  have hdigit : Decimal.digit? '\x0c' = none := by decide
  simp [read?, Numeral.read?, Numeral.unsigned?, Numeral.whole?, Decimal.some?, Decimal.run, hdigit]

theorem lexOnto_margin {b : Char} {s : List Char} {done ts : List Token} (hb : b ∈ margin)
    (h : lexOnto done (b :: s) = some ts) : lexOnto done s = some ts := by
  have hall : ∀ b ∈ margin, isBlank b = false → b = '\x0c' := by simp [margin, isBlank]
  rcases lexOnto_cons_eq_some.1 h with ⟨-, h⟩ | ⟨hblank, t, r, hread, -⟩
  · exact h
  · rw [hall b hb hblank, read?_formFeed] at hread
    cases hread

/-- A front that does not reach over a character leaves it to what follows. -/
theorem exists_of_append_eq {s w r rest : List Char} {b : Char}
    (hw : b ∉ w ∨ rest = [] ∧ w.getLast? ≠ some b) (h : s ++ b :: rest = w ++ r) :
    ∃ r', r = r' ++ b :: rest ∧ s = w ++ r' := by
  rcases List.append_eq_append_iff.1 h with ⟨u, rfl, hu⟩ | ⟨r', rfl, rfl⟩
  · cases u with
    | nil => exact ⟨[], hu.symm, (List.append_nil _).symm ▸ (List.append_nil _).symm⟩
    | cons c u =>
      obtain ⟨rfl, hrest⟩ := List.cons.inj hu
      rcases hw with hw | ⟨rfl, hw⟩
      · exact absurd (List.mem_append_right s List.mem_cons_self) hw
      · obtain ⟨rfl, -⟩ := List.append_eq_nil_iff.1 hrest.symm
        exact absurd List.getLast?_concat hw
  · exact ⟨r', rfl, rfl⟩

theorem word_cut {w s r rest : List Char} {b : Char} {t u : Token} (hw : b ∉ w)
    (h : (after? w (s ++ b :: rest)).map (t, ·) = some (u, r)) :
    ∃ r', r = r' ++ b :: rest ∧ (after? w s).map (t, ·) = some (u, r') := by
  obtain ⟨r, hr, he⟩ := Option.map_eq_some_iff.1 h
  cases he
  obtain ⟨r', rfl, rfl⟩ := exists_of_append_eq (.inl hw) (after?_eq_some_iff.1 hr)
  exact ⟨r', rfl, by rw [after?_eq_some_iff.2 rfl]; rfl⟩

/-- A token does not reach over a blank behind a text. A space may stand in a string, but no other
blank does. -/
theorem read?_cut {c b : Char} {s r rest : List Char} {t : Token} (hb : b ∈ margin)
    (hrest : rest = [] ∨ b ≠ ' ') (h : read? c (s ++ b :: rest) = some (t, r)) :
    ∃ r', r = r' ++ b :: rest ∧ read? c s = some (t, r') := by
  have hall : ∀ b ∈ margin, Decimal.digit? b = none ∧ b ∉ ['.', 'e', 'E', '+', '-'] := by
    simp [margin, Decimal.digit?]
  have hword : ∀ b ∈ margin, b ≠ '"' ∧ b ∉ ['u', 'l', 'l'] ∧ b ∉ ['r', 'u', 'e'] ∧
      b ∉ ['a', 'l', 's', 'e'] := by simp [margin]
  have hcontrol : ∀ b ∈ margin, b = ' ' ∨ b.toNat < 32 := by simp [margin]
  obtain ⟨hquote, hnull, htrue, hfalse⟩ := hword b hb
  unfold read? at h ⊢
  split at h
  case h_7 =>
    obtain ⟨⟨ps, r⟩, hread, he⟩ := Option.map_eq_some_iff.1 h
    obtain ⟨body, hs, hwritten, hbody⟩ := Quoted.read?_local hread
    have hcut : b ∉ body ++ ['"'] ∨ rest = [] ∧ (body ++ ['"']).getLast? ≠ some b := by
      rcases hrest with rfl | hspace
      · exact .inr ⟨rfl, by simpa using hquote.symm⟩
      · have hlt := (hcontrol b hb).resolve_left hspace
        refine .inl fun hmem => ?_
        rcases List.mem_append.1 hmem with hmem | hmem
        · exact absurd (hwritten b hmem) (Nat.not_le_of_lt hlt)
        · exact hquote (List.mem_singleton.1 hmem)
    obtain ⟨r', rfl, rfl⟩ := exists_of_append_eq hcut (hs.trans (List.append_cons body '"' r))
    cases he
    refine ⟨r', rfl, ?_⟩
    rw [List.append_assoc, List.singleton_append, hbody]
    rfl
  case h_8 => exact word_cut hnull h
  case h_9 => exact word_cut htrue h
  case h_10 => exact word_cut hfalse h
  case h_11 =>
    obtain ⟨⟨n, r⟩, hread, he⟩ := Option.map_eq_some_iff.1 h
    cases he
    rw [← List.cons_append, Numeral.read?_append (Numeral.stops_cons (hall b hb) rest)] at hread
    obtain ⟨⟨m, r'⟩, hshorter, he⟩ := Option.map_eq_some_iff.1 hread
    cases he
    exact ⟨r', rfl, by rw [hshorter]; rfl⟩
  all_goals
    cases h
    exact ⟨s, rfl, rfl⟩

theorem lexOnto_concat {b : Char} {s : List Char} {done ts : List Token} (hb : b ∈ margin)
    (h : lexOnto done (s ++ [b]) = some ts) : lexOnto done s = some ts := by
  match s with
  | [] => exact lexOnto_margin hb h
  | c :: s =>
    rcases lexOnto_cons_eq_some.1 h with ⟨hc, h⟩ | ⟨hc, t, r, hread, h⟩
    · rw [lexOnto_blank done hc]
      exact lexOnto_concat hb h
    · obtain ⟨r', rfl, hshorter⟩ := read?_cut hb (.inl rfl) hread
      have hlength := read?_length hshorter
      rw [lexOnto_cons done hc hshorter]
      exact lexOnto_concat hb h
termination_by s.length

end Token
end Json
end FlowLog
