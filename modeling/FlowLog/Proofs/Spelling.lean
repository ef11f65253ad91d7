import FlowLog.Json.Printer
import FlowLog.Proofs.Digits

/-! Single tokens of JSON text are read as they were written: a text character by character, with an
escape where it has one, and a natural number up to the first character that cannot continue it. -/

namespace FlowLog
namespace Json
namespace Quoted

/-- The piece that a character is written as: a control without a letter of its own is a unit. -/
def piece (c : Char) : Piece :=
  if c.toNat < 32 ∧ c ∉ ['\x08', '\x0c', '\n', '\r', '\t'] then .unit c.toNat else .char c

theorem hexValue?_hexDigit {d : Nat} (h : d < 16) : hexValue? (Quotation.hexDigit d) = some d := by
  have hall : ∀ d : Fin 16, hexValue? (Quotation.hexDigit d) = some d.val := by decide
  exact hall ⟨d, h⟩

theorem unit?_hexDigit {n : Nat} (h : n < 32) :
    unit? '0' '0' (Quotation.hexDigit (n / 16)) (Quotation.hexDigit (n % 16)) = some n := by
  have hzero : hexValue? '0' = some 0 := by decide
  have hhigh : hexValue? (Quotation.hexDigit (n / 16)) = some (n / 16) :=
    hexValue?_hexDigit (by omega)
  have hlow : hexValue? (Quotation.hexDigit (n % 16)) = some (n % 16) :=
    hexValue?_hexDigit (by omega)
  simp only [unit?, hzero, hhigh, hlow, Option.bind_eq_bind, Option.bind_some]
  exact congrArg some (by omega)

/-- A character that needs no escape is a piece of its own. -/
theorem read?_plain {c : Char} (hquote : c ≠ '"') (hslash : c ≠ '\\') (h : 32 ≤ c.toNat)
    (s : List Char) : read? (c :: s) = (read? s).map fun r => (.char c :: r.1, r.2) := by
  have hwritten : ¬(c.toNat < 32 ∨ c = '\\') := not_or.2 ⟨Nat.not_lt.2 h, hslash⟩
  rw [read?.eq_4 c s hquote (fun _ _ _ _ _ hc _ => hslash hc) (fun _ _ hc _ => hslash hc),
    if_neg hwritten, Option.map_eq_bind]
  rfl

theorem read?_letter {e c : Char} (hunit : e ≠ 'u') (he : named? e = some c) (s : List Char) :
    read? ('\\' :: e :: s) = (read? s).map fun r => (.char c :: r.1, r.2) := by
  rw [read?.eq_3 e s (fun _ _ _ _ _ hu _ => hunit hu), he, Option.map_eq_bind]
  rfl

theorem read?_unit {n : Nat} (h : n < 32) (s : List Char) :
    read? ('\\' :: 'u' :: '0' :: '0' :: Quotation.hexDigit (n / 16) ::
      Quotation.hexDigit (n % 16) :: s) = (read? s).map fun r => (.unit n :: r.1, r.2) := by
  rw [read?, unit?_hexDigit h, Option.map_eq_bind]
  rfl

theorem read?_escape (c : Char) (s : List Char) :
    read? (escape c ++ s) = (read? s).map fun r => (piece c :: r.1, r.2) := by
  unfold escape
  split
  case h_8 hquote hslash hb hf hn hr ht =>
    by_cases h : c.toNat < 32
    -- The letters stand before the units, so a control that comes here has none.
    · have hletter : c ∉ ['\x08', '\x0c', '\n', '\r', '\t'] := by
        simp only [List.mem_cons, List.not_mem_nil, or_false, not_or]
        exact ⟨hb, hf, hn, hr, ht⟩
      have hpiece : piece c = .unit c.toNat := if_pos ⟨h, hletter⟩
      rw [if_pos h, hpiece]
      exact read?_unit h s
    · have hpiece : piece c = .char c := if_neg fun hc => h hc.1
      rw [if_neg h, hpiece]
      exact read?_plain hquote hslash (Nat.le_of_not_lt h) s
  all_goals exact read?_letter (by decide) rfl s

theorem read?_escapes (cs rest : List Char) :
    read? (cs.flatMap escape ++ '"' :: rest) = some (cs.map piece, rest) := by
  induction cs with
  | nil => simp [read?]
  | cons c cs ih => simp [List.flatMap_cons, List.append_assoc, read?_escape, ih]

/-- A unit that belongs to no pair is a character. -/
theorem chars?_unit {n : Nat} (h : n < 0xD800) (ps : List Piece) :
    chars? (.unit n :: ps) = (chars? ps).map (Char.ofNat n :: ·) := by
  have hhigh : isHigh n = false := by simp [isHigh]; omega
  have hlow : isLow n = false := by simp [isLow]; omega
  rcases ps with _ | ⟨_ | _, _⟩ <;> simp [chars?, hhigh, hlow]

theorem chars?_piece (c : Char) (ps : List Piece) :
    chars? (piece c :: ps) = (chars? ps).map (c :: ·) := by
  unfold piece
  split
  · rename_i h
    rw [chars?_unit (by omega), Char.ofNat_toNat]
  · rfl

theorem chars?_pieces (cs : List Char) : chars? (cs.map piece) = some cs := by
  induction cs with
  | nil => rfl
  | cons c cs ih => rw [List.map_cons, chars?_piece, ih, Option.map_some]

theorem text?_pieces (s : String) : text? (s.toList.map piece) = some s := by
  rw [text?, chars?_pieces, Option.map_some, String.ofList_toList]

end Quoted

namespace Numeral

def ofNat (n : Nat) : Numeral := ⟨false, Decimal.digits n, [], none⟩

/-- A text that cannot continue a numeral. -/
def Ends (rest : List Char) : Prop :=
  ∀ c ∈ rest.head?, Decimal.digit? c = none ∧ c ≠ '.' ∧ c ≠ 'e' ∧ c ≠ 'E'

theorem whole?_chars (n : Nat) {rest : List Char} (h : Ends rest) :
    whole? (Decimal.chars n ++ rest) = some (Decimal.digits n, rest) := by
  by_cases hn : n = 0
  · subst hn
    simp [Decimal.chars, Decimal.digits, Decimal.digitChar, whole?]
  · have hne := Decimal.digits_ne_nil n
    have hrun : Decimal.run (Decimal.chars n ++ rest) = (Decimal.digits n, rest) :=
      Decimal.run_digits (Decimal.digits_lt n) fun c hc => (h c hc).1
    have hsome : Decimal.some? (Decimal.chars n ++ rest) = some (Decimal.digits n, rest) := by
      rw [Decimal.some?, hrun, if_neg hne]
    -- A zero in front would end the numeral.
    have hhead : ∀ r, Decimal.chars n ++ rest ≠ '0' :: r := by
      intro r he
      obtain ⟨d, ds, hds⟩ := List.exists_cons_of_ne_nil hne
      have hd : d ≠ 0 := Decimal.digits_head hn d (by rw [hds]; rfl)
      have hlt : d < 10 := Decimal.digits_lt n d (by rw [hds]; exact List.mem_cons_self)
      rw [Decimal.chars, hds, List.map_cons, List.cons_append, List.cons.injEq] at he
      have hzero := Decimal.digit?_digitChar hlt
      rw [he.1] at hzero
      exact hd (Option.some.inj hzero).symm
    rw [whole?.eq_def]
    split
    · rename_i r he
      exact absurd he (hhead r)
    · exact hsome

theorem fraction?_of_ends {rest : List Char} (h : Ends rest) : fraction? rest = some ([], rest) := by
  rw [fraction?.eq_def]
  split
  · exact absurd rfl (h '.' rfl).2.1
  · rfl

theorem exponent?_of_ends {rest : List Char} (h : Ends rest) :
    exponent? rest = some (none, rest) := by
  cases rest with
  | nil => rfl
  | cons c r =>
    obtain ⟨-, -, he, hE⟩ := h c rfl
    rw [exponent?, if_neg (not_or.2 ⟨he, hE⟩)]

theorem read?_chars (n : Nat) {rest : List Char} (h : Ends rest) :
    read? (Decimal.chars n ++ rest) = some (ofNat n, rest) := by
  have hminus : ∀ r, Decimal.chars n ++ rest ≠ '-' :: r := by
    intro r he
    obtain ⟨d, ds, hds⟩ := List.exists_cons_of_ne_nil (Decimal.digits_ne_nil n)
    have hlt : d < 10 := Decimal.digits_lt n d (by rw [hds]; exact List.mem_cons_self)
    rw [Decimal.chars, hds, List.map_cons, List.cons_append, List.cons.injEq] at he
    exact Decimal.digitChar_ne hlt (by decide) he.1
  have hunsigned : unsigned? false (Decimal.chars n ++ rest) = some (ofNat n, rest) := by
    simp only [unsigned?, whole?_chars n h, fraction?_of_ends h, exponent?_of_ends h,
      Option.bind_eq_bind, Option.bind_some]
    rfl
  rw [read?.eq_def]
  split
  · rename_i r he
    exact absurd he (hminus r)
  · exact hunsigned

/-! The value of a natural number that fits 64 bits. -/

theorem le_foldl_digits (s : Nat) (ds : List Nat) : s ≤ ds.foldl (fun n d => 10 * n + d) s := by
  induction ds generalizing s with
  | nil => exact Nat.le_refl s
  | cons d ds ih =>
    have := ih (10 * s + d)
    rw [List.foldl_cons]
    omega

theorem absorb_eq {s : Nat} {ds : List Nat}
    (h : ds.foldl (fun n d => 10 * n + d) s < UInt64.size) :
    absorb s ds = (ds.foldl (fun n d => 10 * n + d) s, ds.length) := by
  induction ds generalizing s with
  | nil => rfl
  | cons d ds ih =>
    have hstep := le_foldl_digits (10 * s + d) ds
    rw [List.foldl_cons] at h
    rw [absorb, Nat.mul_comm, if_pos (by omega), ih h, List.foldl_cons, List.length_cons]

theorem value?_ofNat (n : UInt64) : (ofNat n.toNat).value? = some (.natural n) := by
  have hvalue : (Decimal.digits n.toNat).foldl (fun n d => 10 * n + d) 0 = n.toNat :=
    Decimal.digits_value n.toNat
  have hfits : (Decimal.digits n.toNat).foldl (fun n d => 10 * n + d) 0 < UInt64.size := by
    rw [hvalue]
    exact n.toNat_lt
  have habsorb := absorb_eq hfits
  rw [hvalue] at habsorb
  simp [value?, ofNat, habsorb]

end Numeral
end Json
end FlowLog
