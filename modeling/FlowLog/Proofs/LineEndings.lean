import FlowLog.Proofs.Decoding
import Mathlib.Data.List.Forall2

/-! Line endings. A line feed stands in no token and in no character of several bytes, and neither does
a carriage return, so what stands on either side of one is read by itself. A file gives a store the
same records whether its lines end in a line feed or in a carriage return and a line feed. -/

namespace FlowLog
namespace Lines

def carriageReturn : UInt8 := 13

/-- The bytes with a carriage return in front of every line feed. -/
def crlf (bs : List UInt8) : List UInt8 :=
  bs.flatMap fun b => if b = lineFeed then [carriageReturn, lineFeed] else [b]

@[simp] theorem crlf_nil : crlf [] = [] := rfl
@[simp] theorem crlf_lineFeed (bs : List UInt8) :
    crlf (lineFeed :: bs) = carriageReturn :: lineFeed :: crlf bs := rfl
theorem crlf_cons {b : UInt8} (hb : b ≠ lineFeed) (bs : List UInt8) :
    crlf (b :: bs) = b :: crlf bs := by simp [crlf, hb]

end Lines

namespace Json
namespace Token

theorem lexOnto_eq_none {c : Char} {s : List Char} (done : List Token) (hc : isBlank c = false)
    (h : read? c s = none) : lexOnto done (c :: s) = none := by
  apply Option.eq_none_iff_forall_ne_some.2
  intro ts hts
  rcases lexOnto_cons_eq_some.1 hts with ⟨hblank, -⟩ | ⟨-, t, r, hread, -⟩
  · simp [hc] at hblank
  · simp [h] at hread

section
variable {c : Char} (hblank : isBlank c) (hspace : c ≠ ' ')
include hblank hspace

/-- A text is cut into tokens on either side of a blank that is no space, for no token reaches over
it. -/
theorem lexOnto_append_cons (done : List Token) (s rest : List Char) :
    lexOnto done (s ++ c :: rest) =
      (lexOnto done s).bind fun ts => lexOnto ts.reverse rest := by
  have hmargin : c ∈ margin := by
    simp only [isBlank, Bool.or_eq_true, beq_iff_eq] at hblank
    rcases hblank with ((rfl | rfl) | rfl) | rfl <;> simp [margin]
  have hall : ∀ c ∈ margin, Decimal.digit? c = none ∧ c ∉ ['.', 'e', 'E', '+', '-'] := by
    simp [margin, Decimal.digit?]
  induction done, s using lexOnto.induct with
  | case1 done => simp [lexOnto_blank done hblank, lexOnto_nil]
  | case2 done d s hd ih => rw [List.cons_append, lexOnto_blank done hd, lexOnto_blank done hd, ih]
  | case3 done d s hd hread =>
    have hd := Bool.eq_false_iff.2 hd
    have hmore : read? d (s ++ c :: rest) = none := by
      apply Option.eq_none_iff_forall_ne_some.2
      rintro ⟨t, r⟩ h
      obtain ⟨r', -, h⟩ := read?_cut hmargin (.inr hspace) h
      simp [hread] at h
    rw [List.cons_append, lexOnto_eq_none done hd hmore, lexOnto_eq_none done hd hread]
    rfl
  | case4 done d s hd t r hread _ ih =>
    have hd := Bool.eq_false_iff.2 hd
    have hmore := read?_append (Numeral.stops_cons (hall c hmargin) rest) hread
    rw [List.cons_append, lexOnto_cons done hd hmore, lexOnto_cons done hd hread, ih]

end

/-- The tokens of bytes behind the tokens `done`, held in reverse. -/
def lexBytes (done : List Token) (bs : List UInt8) : Option (List Token) :=
  (Utf8.decode bs).bind (lexOnto done)

@[simp] theorem lexBytes_nil (done : List Token) : lexBytes done [] = some done.reverse := by
  rw [lexBytes, ← Utf8.encode_nil, Utf8.decode_encode, Option.bind_some, lexOnto_nil]

theorem lexBytes_append_cons {b : UInt8} (hb : b = Lines.lineFeed ∨ b = Lines.carriageReturn)
    (done : List Token) (before after : List UInt8) : lexBytes done (before ++ b :: after) =
      (lexBytes done before).bind fun ts => lexBytes ts.reverse after := by
  obtain ⟨c, hbyte, hascii, hblank, hspace⟩ :
      ∃ c : Char, b.toNat = c.toNat ∧ c.toNat < 0x80 ∧ isBlank c ∧ c ≠ ' ' := by
    rcases hb with rfl | rfl
    · exact ⟨'\n', by decide⟩
    · exact ⟨'\r', by decide⟩
  simp only [lexBytes]
  rw [Utf8.decode_append_cons hbyte hascii]
  cases Utf8.decode before with
  | none => rfl
  | some s =>
    cases Utf8.decode after with
    | none => simp
    | some rest => simp [lexOnto_append_cons hblank hspace]

/-- Bytes have the same tokens with either line ending, whatever stands in front of them. -/
theorem lexBytes_crlf (done : List Token) (before bs : List UInt8) :
    lexBytes done (before ++ Lines.crlf bs) = lexBytes done (before ++ bs) := by
  induction bs generalizing done before with
  | nil => rfl
  | cons b bs ih =>
    by_cases hb : b = Lines.lineFeed
    · subst hb
      have hfeed (done : List Token) (bs : List UInt8) :
          lexBytes done (Lines.lineFeed :: bs) = lexBytes done bs := by
        simpa using lexBytes_append_cons (.inl rfl) done [] bs
      rw [Lines.crlf_lineFeed, lexBytes_append_cons (.inr rfl), lexBytes_append_cons (.inl rfl)]
      refine congrArg _ (funext fun ts => ?_)
      rw [hfeed]
      exact ih ts.reverse []
    · rw [Lines.crlf_cons hb, List.append_cons before b bs, List.append_cons before b]
      exact ih done (before ++ [b])

end Token

theorem Value.ofBytes?_eq_bind (bs : List UInt8) : ofBytes? bs =
    (Token.lexBytes [] bs).bind fun ts => (Tree.ofTokens? ts).bind (Tree.value? maxDepth) := by
  rw [ofBytes?, Token.lexBytes, Option.bind_assoc]
  refine congrArg _ (funext fun s => ?_)
  rw [read?, Tree.read?, Option.bind_assoc]
  rfl

/-- A document has the same value with either line ending. -/
theorem Value.ofBytes?_crlf (bs : List UInt8) : ofBytes? (Lines.crlf bs) = ofBytes? bs := by
  rw [ofBytes?_eq_bind, ofBytes?_eq_bind bs]
  exact congrArg (Option.bind · _) (Token.lexBytes_crlf [] [] bs)

end Json

namespace Lines

theorem trimStart_cons {b : UInt8} (hb : isBlank b) (bs : List UInt8) :
    trimStart (b :: bs) = trimStart bs := by simp [trimStart, hb]

theorem trimStart_crlf (bs : List UInt8) : trimStart (crlf bs) = crlf (trimStart bs) := by
  induction bs with
  | nil => rfl
  | cons b bs ih =>
    by_cases hfeed : b = lineFeed
    · subst hfeed
      rw [crlf_lineFeed, trimStart_cons (by decide), trimStart_cons (by decide), ih,
        trimStart_cons (by decide)]
    · rw [crlf_cons hfeed]
      by_cases hb : isBlank b
      · rw [trimStart_cons hb, trimStart_cons hb, ih]
      · have hb := Bool.eq_false_iff.2 hb
        rw [trimStart_of_head hb, trimStart_of_head hb, crlf_cons hfeed]

theorem trim_cons {b : UInt8} (hb : isBlank b) (line : List UInt8) :
    trim (b :: line) = trim line := by rw [trim, trimStart_cons hb, trim]

theorem trim_concat {b : UInt8} (hb : isBlank b) (line : List UInt8) :
    trim (line ++ [b]) = trim line := by
  induction line with
  | nil => exact trim_cons hb []
  | cons a line ih =>
    by_cases ha : isBlank a
    · rw [List.cons_append, trim_cons ha, trim_cons ha, ih]
    · have ha := Bool.eq_false_iff.2 ha
      rw [trim, trim, List.cons_append, trimStart_of_head ha, trimStart_of_head ha,
        ← List.cons_append, List.reverse_append, List.reverse_singleton, List.singleton_append,
        trimStart_cons hb]

/-- With either line ending there are the same lines, but for a carriage return at their ends. -/
theorem pieces_crlf (bs : List UInt8) :
    List.Forall₂ (fun p q => p = q ∨ p = q ++ [carriageReturn]) (pieces (crlf bs)) (pieces bs) := by
  induction bs with
  | nil => exact .cons (.inl rfl) .nil
  | cons b bs ih =>
    by_cases hb : b = lineFeed
    · subst hb
      rw [crlf_lineFeed, pieces_cons, pieces_cons, pieces_cons, push_lineFeed, push_lineFeed,
        push_of_ne (by decide)]
      exact .cons (.inr rfl) ih
    · rw [crlf_cons hb, pieces_cons, pieces_cons]
      generalize pieces (crlf bs) = ps, pieces bs = qs at ih
      cases ih with
      | nil => exact List.forall₂_same.2 fun _ _ => .inl rfl
      | cons h hrest =>
        rw [push_of_ne hb, push_of_ne hb]
        exact .cons (h.imp (congrArg _) (congrArg _)) hrest

end Lines

namespace Store

/-- Of a line only what is left when it is trimmed counts. -/
theorem ingestLine_congr (s : Store) {p q : List UInt8} (h : Lines.trim p = Lines.trim q) :
    s.ingestLine p = s.ingestLine q := by
  unfold ingestLine
  rw [h]

theorem extendLines_congr (s : Store) {ps qs : List (List UInt8)}
    (h : List.Forall₂ (fun p q => Lines.trim p = Lines.trim q) ps qs) :
    s.extendLines ps = s.extendLines qs := by
  induction h generalizing s with
  | nil => rfl
  | @cons p q ps qs hline _ ih =>
    show (s.ingestLine p).1.extendLines ps = (s.ingestLine q).1.extendLines qs
    rw [s.ingestLine_congr hline, ih]

theorem isArray_crlf (bs : List UInt8) : isArray (Lines.crlf bs) = isArray bs := by
  rw [isArray, isArray, Lines.trimStart_crlf]
  cases h : Lines.trimStart bs with
  | nil => rfl
  | cons b rest =>
    have hb : b ≠ Lines.lineFeed := by
      rintro rfl
      have hhead := List.head?_dropWhile_not Lines.isBlank bs
      rw [← Lines.trimStart, h] at hhead
      simp [Lines.lineFeed, Lines.isBlank] at hhead
    rw [Lines.crlf_cons hb]
    rfl

/-- A file is accepted and leaves the same store whether its lines end in a line feed or in a carriage
return and a line feed, be it an array or records on lines. -/
theorem loadBytes_crlf (s : Store) (bs : List UInt8) :
    s.loadBytes (Lines.crlf bs) = s.loadBytes bs := by
  have hlines : s.extendLines (Lines.pieces (Lines.crlf bs)) = s.extendLines (Lines.pieces bs) := by
    refine s.extendLines_congr ((Lines.pieces_crlf bs).imp fun p q h => ?_)
    rcases h with rfl | rfl
    · rfl
    · exact Lines.trim_concat (by decide) q
  rw [loadBytes, loadBytes, isArray_crlf, Json.Value.ofBytes?_crlf, hlines]

end Store
end FlowLog
