import FlowLog.Proofs.LineEndings

/-! Blanks in front of a file. The form of a file and its lines are found with the form feed among the
blanks, but between the tokens of a document a form feed is none. Blanks in front of records on lines
therefore change nothing, and neither do blanks other than form feeds in front of an array; an array
behind a form feed is refused, although it is still recognised as one. -/

namespace FlowLog
namespace Lines

def formFeed : UInt8 := 12

theorem trimStart_append {w : List UInt8} (hw : ∀ b ∈ w, isBlank b) (bs : List UInt8) :
    trimStart (w ++ bs) = trimStart bs := List.dropWhile_append_of_pos hw

end Lines

namespace Json
namespace Token

theorem lexBytes_cons {b : UInt8} (hb : Lines.isBlank b) (done : List Token) (bs : List UInt8) :
    lexBytes done (b :: bs) = if b = Lines.formFeed then none else lexBytes done bs := by
  obtain ⟨c, hc, -, hbyte, hascii⟩ := Utf8.exists_margin hb
  have hfeed : b = Lines.formFeed ↔ c = '\x0c' := by
    rw [← Char.toNat_inj, ← hbyte, ← UInt8.toNat_inj]
    rfl
  have hall : ∀ c ∈ margin, c = '\x0c' ∨ isBlank c := by simp [margin, isBlank]
  have hread : lexBytes done (b :: bs) = (Utf8.decode bs).bind fun s => lexOnto done (c :: s) := by
    have hdecode := Utf8.decode_append_cons hbyte hascii [] bs
    rw [← Utf8.encode_nil, Utf8.decode_encode] at hdecode
    rw [lexBytes]
    exact (congrArg (Option.bind · _) hdecode).trans (Option.bind_map ..)
  rw [hread]
  split
  · rename_i hb
    rw [hfeed.1 hb]
    cases Utf8.decode bs with
    | none => rfl
    | some s => exact lexOnto_eq_none done (by decide) (read?_formFeed s)
  · rename_i hb
    have hblank := (hall c hc).resolve_left (mt hfeed.2 hb)
    simp only [lexOnto_blank done hblank]
    rfl

end Token

theorem Value.ofBytes?_append {w : List UInt8} (hw : ∀ b ∈ w, Lines.isBlank b)
    (bs : List UInt8) :
    ofBytes? (w ++ bs) = if Lines.formFeed ∈ w then none else ofBytes? bs := by
  induction w with
  | nil => rfl
  | cons b w ih =>
    obtain ⟨hb, hw⟩ := List.forall_mem_cons.1 hw
    have hcons : ofBytes? (b :: (w ++ bs)) =
        if b = Lines.formFeed then none else ofBytes? (w ++ bs) := by
      rw [ofBytes?_eq_bind, Token.lexBytes_cons hb]
      split
      · rfl
      · exact (ofBytes?_eq_bind _).symm
    rw [List.cons_append, hcons, ih hw]
    by_cases hfeed : b = Lines.formFeed
    · simp [hfeed]
    · simp [hfeed, Ne.symm hfeed]

end Json

namespace Store

theorem isArray_blanks {w : List UInt8} (hw : ∀ b ∈ w, Lines.isBlank b) (bs : List UInt8) :
    isArray (w ++ bs) = isArray bs := by
  rw [isArray, isArray, Lines.trimStart_append hw]

/-- A blank in front of the lines lengthens the first of them or stands on one of its own. -/
theorem extendLines_blank (s : Store) {b : UInt8} (hb : Lines.isBlank b) (bs : List UInt8) :
    s.extendLines (Lines.pieces (b :: bs)) = s.extendLines (Lines.pieces bs) := by
  rw [Lines.pieces_cons]
  by_cases hfeed : b = Lines.lineFeed
  · rw [hfeed, Lines.push_lineFeed]
    rfl
  · cases Lines.pieces bs with
    | nil =>
      rw [Lines.push, if_neg hfeed]
      exact congrArg Prod.fst (s.ingestLine_congr (Lines.trim_cons hb []))
    | cons line rest =>
      rw [Lines.push_of_ne hfeed]
      exact congrArg (extendLines · rest)
        (congrArg Prod.fst (s.ingestLine_congr (Lines.trim_cons hb line)))

theorem extendLines_blanks (s : Store) {w : List UInt8} (hw : ∀ b ∈ w, Lines.isBlank b)
    (bs : List UInt8) :
    s.extendLines (Lines.pieces (w ++ bs)) = s.extendLines (Lines.pieces bs) := by
  induction w with
  | nil => rfl
  | cons b w ih =>
    obtain ⟨hb, hw⟩ := List.forall_mem_cons.1 hw
    rw [List.cons_append, s.extendLines_blank hb, ih hw]

/-- Blanks in front of a file make no difference, except that an array behind a form feed is refused
and leaves the store as it was. -/
theorem loadBytes_blanks (s : Store) {w : List UInt8} (hw : ∀ b ∈ w, Lines.isBlank b)
    (bs : List UInt8) : s.loadBytes (w ++ bs) =
      if isArray bs ∧ Lines.formFeed ∈ w then (s, false) else s.loadBytes bs := by
  rw [loadBytes, loadBytes, isArray_blanks hw, Json.Value.ofBytes?_append hw,
    s.extendLines_blanks hw]
  by_cases harray : isArray bs
  · by_cases hfeed : Lines.formFeed ∈ w
    · simp [harray, hfeed]
    · simp [harray, hfeed]
  · simp [harray]

/-- Behind a tab, a form feed and a line feed the same record is taken on a line and refused in an
array. -/
theorem loadBytes_blanks_mixed :
    let w : List UInt8 := [9, 12, 10]
    let record := Utf8.encode "\x7b\"event-type\":\"x\"\x7d".toList
    let array := 91 :: record ++ [93]
    (∀ b ∈ w, Lines.isBlank b) ∧
      (new .standard).loadBytes (w ++ record) = (new .standard).loadBytes record ∧
      (new .standard).loadBytes (w ++ array) = (new .standard, false) := by
  intro w record array
  have hw : ∀ b ∈ w, Lines.isBlank b := by decide +kernel
  refine ⟨hw, ?_, ?_⟩
  · rw [loadBytes_blanks _ hw, if_neg (by decide +kernel)]
  · rw [loadBytes_blanks _ hw, if_pos (by decide +kernel)]

/-- An empty array is accepted, and behind a form feed it is not. -/
theorem loadBytes_formFeed_ne :
    (∀ b ∈ [Lines.formFeed], Lines.isBlank b) ∧
      (new .standard).loadBytes ([Lines.formFeed] ++ [91, 93]) ≠
        (new .standard).loadBytes [91, 93] := by
  decide +kernel

end Store
end FlowLog
