import FlowLog.Proofs.Encoding
import FlowLog.Proofs.Intake
import FlowLog.Proofs.Lexemes

/-! Bytes that are a text are the bytes of that text, so a document can be looked at as characters
wherever it is given as bytes. Blank bytes around a document stand for blanks around its text and do
not change its value. -/

namespace FlowLog
namespace Utf8

theorem scalar?_eq_some {least n : Nat} {c : Char} (h : scalar? least n = some c) :
    least ≤ n ∧ c.toNat = n := by
  by_cases hn : least ≤ n ∧ n.isValidChar
  · rw [scalar?, dif_pos hn] at h
    cases h
    exact ⟨hn.1, rfl⟩
  · rw [scalar?, dif_neg hn] at h
    cases h

theorem tail?_eq_some {b : UInt8} {x : Nat} (h : tail? b = some x) :
    b.toNat = 0x80 + x ∧ x < 64 := by
  simp only [tail?, Option.ite_none_right_eq_some, Option.some.injEq] at h
  omega

theorem eq_toUInt8 {b : UInt8} {n : Nat} (h : b.toNat = n) : b = n.toUInt8 := by
  subst h
  simp

/-! The four forms of a character. -/

section
variable {c : Char} {a b b' b'' : UInt8}

theorem encodeChar_one (h : c.toNat < 0x80) (ha : a.toNat = c.toNat) : encodeChar c = [a] := by
  rw [encodeChar, if_pos h, eq_toUInt8 ha]

theorem encodeChar_two (hleast : 0x80 ≤ c.toNat) (h : c.toNat < 0x800)
    (ha : a.toNat = 0xC0 + c.toNat / 64) (hb : b.toNat = 0x80 + c.toNat % 64) :
    encodeChar c = [a, b] := by
  rw [encodeChar, if_neg (by omega), if_pos h, eq_toUInt8 ha, eq_toUInt8 hb]

theorem encodeChar_three (hleast : 0x800 ≤ c.toNat) (h : c.toNat < 0x10000)
    (ha : a.toNat = 0xE0 + c.toNat / 4096) (hb : b.toNat = 0x80 + c.toNat / 64 % 64)
    (hb' : b'.toNat = 0x80 + c.toNat % 64) : encodeChar c = [a, b, b'] := by
  rw [encodeChar, if_neg (by omega), if_neg (by omega), if_pos h, eq_toUInt8 ha, eq_toUInt8 hb,
    eq_toUInt8 hb']

theorem encodeChar_four (hleast : 0x10000 ≤ c.toNat) (ha : a.toNat = 0xF0 + c.toNat / 262144)
    (hb : b.toNat = 0x80 + c.toNat / 4096 % 64) (hb' : b'.toNat = 0x80 + c.toNat / 64 % 64)
    (hb'' : b''.toNat = 0x80 + c.toNat % 64) : encodeChar c = [a, b, b', b''] := by
  rw [encodeChar, if_neg (by omega), if_neg (by omega), if_neg (by omega), eq_toUInt8 ha,
    eq_toUInt8 hb, eq_toUInt8 hb', eq_toUInt8 hb'']

end

/-- A character is read from the bytes that it is written as. -/
theorem next?_eq {bs rest : List UInt8} {c : Char} (h : next? bs = some (c, rest)) :
    bs = encodeChar c ++ rest := by
  unfold next? at h
  split at h
  · cases h
  · rename_i a r
    have ha : a.toNat < 256 := a.toNat_lt
    split at h
    · obtain ⟨d, hd, he⟩ := Option.map_eq_some_iff.1 h
      cases he
      obtain ⟨-, hc⟩ := scalar?_eq_some hd
      rw [encodeChar_one (by omega) hc.symm]
      rfl
    split at h
    · cases h
    split at h
    · split at h
      · simp only [Option.bind_eq_bind, Option.bind_eq_some_iff, Option.map_eq_some_iff] at h
        obtain ⟨x, hx, d, hd, he⟩ := h
        cases he
        obtain ⟨hb, hx⟩ := tail?_eq_some hx
        obtain ⟨hleast, hc⟩ := scalar?_eq_some hd
        have hform : encodeChar c = [a, _] :=
          encodeChar_two (by omega) (by omega) (by omega) (hb.trans (by omega))
        rw [hform]
        rfl
      · cases h
    split at h
    · split at h
      · simp only [Option.bind_eq_bind, Option.bind_eq_some_iff, Option.map_eq_some_iff] at h
        obtain ⟨x, hx, y, hy, d, hd, he⟩ := h
        cases he
        obtain ⟨hb, hx⟩ := tail?_eq_some hx
        obtain ⟨hb', hy⟩ := tail?_eq_some hy
        obtain ⟨hleast, hc⟩ := scalar?_eq_some hd
        have hform : encodeChar c = [a, _, _] := encodeChar_three (by omega) (by omega)
          (by omega) (hb.trans (by omega)) (hb'.trans (by omega))
        rw [hform]
        rfl
      · cases h
    · split at h
      · simp only [Option.bind_eq_bind, Option.bind_eq_some_iff, Option.map_eq_some_iff] at h
        obtain ⟨x, hx, y, hy, z, hz, d, hd, he⟩ := h
        cases he
        obtain ⟨hb, hx⟩ := tail?_eq_some hx
        obtain ⟨hb', hy⟩ := tail?_eq_some hy
        obtain ⟨hb'', hz⟩ := tail?_eq_some hz
        obtain ⟨hleast, hc⟩ := scalar?_eq_some hd
        have hform : encodeChar c = [a, _, _, _] := encodeChar_four (by omega) (by omega)
          (hb.trans (by omega)) (hb'.trans (by omega)) (hb''.trans (by omega))
        rw [hform]
        rfl
      · cases h

theorem decodeOnto_eq {done cs : List Char} {bs : List UInt8} (h : decodeOnto done bs = some cs) :
    ∃ ds, cs = done.reverse ++ ds ∧ bs = encode ds := by
  match bs with
  | [] =>
    rw [decodeOnto] at h
    cases h
    exact ⟨[], (List.append_nil _).symm, rfl⟩
  | b :: bs =>
    rw [decodeOnto] at h
    split at h
    · cases h
    · rename_i c rest hnext
      have hlength := next?_shorter hnext
      obtain ⟨ds, rfl, rfl⟩ := decodeOnto_eq h
      exact ⟨c :: ds, by simp, next?_eq hnext⟩
termination_by bs.length
decreasing_by exact hlength

theorem decode_eq_some_iff {bs : List UInt8} {cs : List Char} :
    decode bs = some cs ↔ bs = encode cs := by
  constructor
  · intro h
    obtain ⟨ds, rfl, rfl⟩ := decodeOnto_eq h
    rfl
  · rintro rfl
    exact decode_encode cs

/-- Bytes that begin with those of a character are of a text that begins with it. -/
theorem encode_eq_append {c : Char} {bs : List UInt8} {cs : List Char}
    (h : encode cs = encodeChar c ++ bs) : ∃ ds, cs = c :: ds ∧ bs = encode ds := by
  have hnext := next?_encodeChar c bs
  rw [← h] at hnext
  cases cs with
  | nil => cases hnext
  | cons d ds =>
    rw [encode_cons, next?_encodeChar] at hnext
    cases hnext
    exact ⟨ds, rfl, rfl⟩

theorem encode_eq_nil {cs : List Char} (h : encode cs = []) : cs = [] := by
  cases cs with
  | nil => rfl
  | cons c cs => exact absurd (List.append_eq_nil_iff.1 h).1 (encodeChar_ne_nil c)

/-- The byte of a character that has only one parts the bytes of a text where the character parts the
text. -/
theorem encode_eq_append_cons {c : Char} {b : UInt8} {before after : List UInt8} {cs : List Char}
    (hbyte : b.toNat = c.toNat) (hascii : c.toNat < 0x80) (h : encode cs = before ++ b :: after) :
    ∃ ds es, cs = ds ++ c :: es ∧ before = encode ds ∧ after = encode es := by
  have hone : encodeChar c = [b] := encodeChar_one hascii hbyte
  induction cs generalizing before with
  | nil => simp at h
  | cons d cs ih =>
    rw [encode_cons] at h
    rcases List.append_eq_append_iff.1 h with ⟨rest, rfl, hrest⟩ | ⟨u, hd, hu⟩
    · obtain ⟨ds, es, rfl, rfl, rfl⟩ := ih hrest
      exact ⟨d :: ds, es, rfl, rfl, rfl⟩
    · cases u with
      | nil =>
        have hrest : encode cs = [] ++ b :: after := hu.symm
        obtain ⟨ds, es, rfl, hds, rfl⟩ := ih hrest
        refine ⟨d :: ds, es, rfl, ?_, rfl⟩
        rw [encode_cons, ← hds, hd, List.append_nil, List.append_nil]
      | cons a u =>
        obtain ⟨rfl, hafter⟩ := List.cons.inj hu
        have hmem : b ∈ encodeChar d := hd ▸ List.mem_append_right before List.mem_cons_self
        have hdc : d = c := Char.toNat_inj.1 ((encodeChar_of_mem hmem (hbyte ▸ hascii)).trans hbyte)
        rw [hdc, hone] at hd
        obtain ⟨rfl, hb⟩ : before = [] ∧ b :: u = [b] := by
          simpa using List.append_eq_singleton_iff.1 hd.symm
        obtain ⟨-, rfl⟩ := List.cons.inj hb
        exact ⟨[], cs, by rw [hdc]; rfl, rfl, hafter⟩

/-- What stands on either side of such a byte is decoded by itself. -/
theorem decode_append_cons {c : Char} {b : UInt8} (hbyte : b.toNat = c.toNat)
    (hascii : c.toNat < 0x80) (before after : List UInt8) : decode (before ++ b :: after) =
      (decode before).bind fun ds => (decode after).map fun es => ds ++ c :: es := by
  apply Option.ext
  intro cs
  simp only [decode_eq_some_iff, Option.bind_eq_some_iff, Option.map_eq_some_iff]
  constructor
  · intro h
    obtain ⟨ds, es, rfl, rfl, rfl⟩ := encode_eq_append_cons hbyte hascii h.symm
    exact ⟨ds, rfl, es, rfl, rfl⟩
  · rintro ⟨ds, rfl, es, rfl, rfl⟩
    rw [encode_append, encode_cons, encodeChar_one hascii hbyte]
    rfl

/-! Blank bytes. -/

theorem exists_margin {b : UInt8} (hb : Lines.isBlank b) :
    ∃ c ∈ Json.Token.margin, encodeChar c = [b] ∧ b.toNat = c.toNat ∧ c.toNat < 0x80 := by
  have hcases : b = 32 ∨ b = 9 ∨ b = 10 ∨ b = 12 ∨ b = 13 := by
    simpa [Lines.isBlank, or_assoc] using hb
  rcases hcases with rfl | rfl | rfl | rfl | rfl
  · exact ⟨' ', by decide⟩
  · exact ⟨'\t', by decide⟩
  · exact ⟨'\n', by decide⟩
  · exact ⟨'\x0c', by decide⟩
  · exact ⟨'\r', by decide⟩

/-- A blank byte in front of a text is its first character. -/
theorem encode_eq_cons {b : UInt8} {bs : List UInt8} {cs : List Char} (hb : Lines.isBlank b)
    (h : encode cs = b :: bs) : ∃ c ∈ Json.Token.margin, ∃ ds, cs = c :: ds ∧ bs = encode ds := by
  obtain ⟨c, hc, hone, -⟩ := exists_margin hb
  exact ⟨c, hc, encode_eq_append (by rw [h, hone]; rfl)⟩

/-- A blank byte behind a text is its last character. -/
theorem encode_eq_concat {b : UInt8} {bs : List UInt8} {cs : List Char} (hb : Lines.isBlank b)
    (h : encode cs = bs ++ [b]) :
    ∃ c ∈ Json.Token.margin, ∃ ds, cs = ds ++ [c] ∧ bs = encode ds := by
  obtain ⟨c, hc, -, hbyte, hascii⟩ := exists_margin hb
  obtain ⟨ds, es, rfl, rfl, hes⟩ := encode_eq_append_cons hbyte hascii h
  rw [encode_eq_nil hes.symm]
  exact ⟨c, hc, ds, rfl, rfl⟩

end Utf8

namespace Json
namespace Value

variable {b : UInt8} {bs : List UInt8} {v : Value}

theorem ofBytes?_encode (cs : List Char) : ofBytes? (Utf8.encode cs) = read? cs := by
  rw [ofBytes?, Utf8.decode_encode, Option.bind_some]

/-- No bytes are no document. -/
theorem ofBytes?_nil : ofBytes? [] = none := by
  rw [← Utf8.encode_nil, ofBytes?_encode, read?, Tree.read?, Token.lex, Token.lexOnto_nil]
  rfl

theorem ofBytes?_eq_some_iff :
    ofBytes? bs = some v ↔ ∃ cs, bs = Utf8.encode cs ∧ read? cs = some v := by
  simp only [ofBytes?, Option.bind_eq_some_iff, Utf8.decode_eq_some_iff]

/-- What leaves the tokens as they are leaves the value. -/
theorem read?_of_lex {cs ds : List Char}
    (h : ∀ ts, Token.lex cs = some ts → Token.lex ds = some ts) (hv : read? cs = some v) :
    read? ds = some v := by
  obtain ⟨x, hx, hv⟩ := Option.bind_eq_some_iff.1 hv
  obtain ⟨ts, hts, hx⟩ := Option.bind_eq_some_iff.1 hx
  rw [read?, Tree.read?, h ts hts, Option.bind_some, hx, Option.bind_some, hv]

theorem ofBytes?_of_blank_cons (hb : Lines.isBlank b) (h : ofBytes? (b :: bs) = some v) :
    ofBytes? bs = some v := by
  obtain ⟨cs, he, hcs⟩ := ofBytes?_eq_some_iff.1 h
  obtain ⟨c, hc, ds, rfl, rfl⟩ := Utf8.encode_eq_cons hb he.symm
  rw [ofBytes?_encode]
  exact read?_of_lex (fun _ => Token.lexOnto_margin hc) hcs

theorem ofBytes?_of_blank_concat (hb : Lines.isBlank b) (h : ofBytes? (bs ++ [b]) = some v) :
    ofBytes? bs = some v := by
  obtain ⟨cs, he, hcs⟩ := ofBytes?_eq_some_iff.1 h
  obtain ⟨c, hc, ds, rfl, rfl⟩ := Utf8.encode_eq_concat hb he.symm
  rw [ofBytes?_encode]
  exact read?_of_lex (fun _ => Token.lexOnto_concat hc) hcs

theorem ofBytes?_trimStart (h : ofBytes? bs = some v) : ofBytes? (Lines.trimStart bs) = some v := by
  induction bs with
  | nil => exact h
  | cons b bs ih =>
    cases hb : Lines.isBlank b with
    | true =>
      rw [Lines.trimStart, List.dropWhile_cons, if_pos hb]
      exact ih (ofBytes?_of_blank_cons hb h)
    | false => rwa [Lines.trimStart_of_head hb]

theorem ofBytes?_trimEnd (h : ofBytes? bs.reverse = some v) :
    ofBytes? (Lines.trimStart bs).reverse = some v := by
  induction bs with
  | nil => exact h
  | cons b bs ih =>
    cases hb : Lines.isBlank b with
    | true =>
      rw [Lines.trimStart, List.dropWhile_cons, if_pos hb]
      rw [List.reverse_cons] at h
      exact ih (ofBytes?_of_blank_concat hb h)
    | false => rwa [Lines.trimStart_of_head hb]

/-- A document keeps its value when it is trimmed. -/
theorem ofBytes?_trim (h : ofBytes? bs = some v) : ofBytes? (Lines.trim bs) = some v :=
  ofBytes?_trimEnd ((Lines.trimStart bs).reverse_reverse.symm ▸ ofBytes?_trimStart h)

theorem trimStart_ne_nil (h : ofBytes? bs = some v) : Lines.trimStart bs ≠ [] := by
  intro hnil
  have htrim := ofBytes?_trimStart h
  rw [hnil, ofBytes?_nil] at htrim
  cases htrim

theorem trim_ne_nil (h : ofBytes? bs = some v) : Lines.trim bs ≠ [] := by
  intro hnil
  have htrim := ofBytes?_trim h
  rw [hnil, ofBytes?_nil] at htrim
  cases htrim

end Value
end Json
end FlowLog
