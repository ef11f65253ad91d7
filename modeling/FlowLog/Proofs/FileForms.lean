import FlowLog.Proofs.Decoding
import FlowLog.Proofs.Derivations
import FlowLog.Proofs.Offers

/-! The two forms of a file. Records that stand one on a line and the same records in one array are
cut, read and taken alike: brackets and commas end every text as a line feed does, and the array
needs room for one container more than its deepest element. -/

namespace FlowLog

/-- The bytes of the texts with a line feed between any two. -/
def Lines.join (texts : List (List UInt8)) : List UInt8 := [lineFeed].intercalate texts

theorem intercalate_cons {α : Type} (sep x : List α) (xs : List (List α)) :
    sep.intercalate (x :: xs) = x ++ xs.flatMap (sep ++ ·) := by
  induction xs generalizing x with
  | nil => simp
  | cons y ys ih => simp [List.intercalate_cons_cons, ih y]

theorem Lines.pieces_of_notMem {line : List UInt8} (hline : lineFeed ∉ line) :
    pieces line = [line] := by
  induction line with
  | nil => rfl
  | cons b line ih =>
    obtain ⟨hb, hline⟩ := not_or.1 (List.mem_cons.not.1 hline)
    rw [pieces_cons, ih hline, push_of_ne (Ne.symm hb)]

theorem Lines.pieces_join {line : List UInt8} {lines : List (List UInt8)}
    (h : ∀ l ∈ line :: lines, lineFeed ∉ l) : pieces (join (line :: lines)) = line :: lines := by
  induction lines generalizing line with
  | nil =>
    rw [join, List.intercalate_singleton]
    exact pieces_of_notMem (h line List.mem_cons_self)
  | cons l lines ih =>
    rw [join, List.intercalate_cons_cons, List.append_assoc, List.singleton_append,
      pieces_line (h line List.mem_cons_self)]
    exact congrArg (line :: ·) (ih fun k hk => h k (List.mem_cons_of_mem line hk))

namespace Json

def Tree.ofBytes? (bs : List UInt8) : Option Tree := (Utf8.decode bs).bind Tree.read?

/-- The bytes of the texts between brackets with a comma between any two. -/
def Value.arrayBytes (texts : List (List UInt8)) : List UInt8 :=
  Utf8.encode ['['] ++ (Utf8.encode [',']).intercalate texts ++ Utf8.encode [']']

/-- A text that has a value when it stands in an array. -/
structure Document where
  chars : List Char
  tree : Tree
  value : Value
  lex_eq : Token.lex chars = some tree.tokens
  value_eq : tree.value? Value.maxDepth = some value
  depth_lt : tree.depth < Value.maxDepth

namespace Document

def bytes (d : Document) : List UInt8 := Utf8.encode d.chars

theorem ofBytes?_bytes (d : Document) : Value.ofBytes? d.bytes = some d.value := by
  have htree : Tree.read? d.chars = some d.tree := Tree.read?_eq_some_iff.2 d.lex_eq
  rw [bytes, Value.ofBytes?_encode, Value.read?, htree, Option.bind_some, d.value_eq]

theorem exists_bytes {bs : List UInt8} (hvalue : (Value.ofBytes? bs).isSome)
    (hdepth : ∀ x ∈ Tree.ofBytes? bs, x.depth < Value.maxDepth) : ∃ d : Document, d.bytes = bs := by
  obtain ⟨v, hv⟩ := Option.isSome_iff_exists.1 hvalue
  obtain ⟨cs, hcs, hv⟩ := Option.bind_eq_some_iff.1 hv
  obtain ⟨x, hx, hv⟩ := Option.bind_eq_some_iff.1 hv
  have hlt := hdepth x (Option.bind_eq_some_iff.2 ⟨cs, hcs, hx⟩)
  exact ⟨⟨cs, x, v, Tree.read?_eq_some_iff.1 hx, hv, hlt⟩, (Utf8.decode_eq_some_iff.1 hcs).symm⟩

theorem exists_map_bytes {texts : List (List UInt8)}
    (hvalue : ∀ t ∈ texts, (Value.ofBytes? t).isSome)
    (hdepth : ∀ t ∈ texts, ∀ x ∈ Tree.ofBytes? t, x.depth < Value.maxDepth) :
    ∃ ds : List Document, ds.map bytes = texts := by
  induction texts with
  | nil => exact ⟨[], rfl⟩
  | cons t ts ih =>
    obtain ⟨d, rfl⟩ := exists_bytes (hvalue t List.mem_cons_self) (hdepth t List.mem_cons_self)
    obtain ⟨ds, rfl⟩ := ih (fun u hu => hvalue u (List.mem_cons_of_mem _ hu))
      (fun u hu => hdepth u (List.mem_cons_of_mem _ hu))
    exact ⟨d :: ds, rfl⟩

/-! An array of documents. -/

theorem lex_array (ds : List Document) :
    Token.lex ('[' :: [','].intercalate (ds.map chars) ++ [']']) =
      some (Tree.array (ds.map tree)).tokens := by
  have hlex := Token.lex_brackets (fun d (_ : d ∈ ds) => d.lex_eq) (List.forall_mem_nil _)
  rw [Tree.tokens, Tree.elementTokens_eq]
  simpa [Function.comp_def] using hlex

theorem elements?_tree (ds : List Document) {room : Nat} (hroom : room + 1 = Value.maxDepth) :
    Tree.elements? room (ds.map tree) = some (ds.map value) := by
  induction ds with
  | nil => rfl
  | cons d ds ih =>
    have hd : d.tree.value? room = some d.value :=
      Tree.value?_of_depth_le d.value_eq (by have := d.depth_lt; omega)
    simp only [List.map_cons, Tree.elements?, hd, ih, Option.bind_eq_bind, Option.bind_some]

theorem encode_intercalate (ds : List Document) :
    (Utf8.encode [',']).intercalate (ds.map bytes) =
      Utf8.encode ([','].intercalate (ds.map chars)) := by
  cases ds with
  | nil => rfl
  | cons d ds =>
    rw [List.map_cons, List.map_cons, intercalate_cons, intercalate_cons, Utf8.encode_append]
    congr 1
    induction ds with
    | nil => rfl
    | cons e ds ih =>
      simp only [List.map_cons, List.flatMap_cons, ih, Utf8.encode_append]
      rfl

theorem ofBytes?_arrayBytes (ds : List Document) :
    Value.ofBytes? (Value.arrayBytes (ds.map bytes)) = some (.array (ds.map value)) := by
  have htree : Tree.read? ('[' :: [','].intercalate (ds.map chars) ++ [']']) =
      some (.array (ds.map tree)) := Tree.read?_eq_some_iff.2 (lex_array ds)
  rw [Value.arrayBytes, encode_intercalate, ← Utf8.encode_append, ← Utf8.encode_append,
    Value.ofBytes?_encode, Value.read?, List.singleton_append, htree, Option.bind_some,
    Value.maxDepth, Tree.value?, elements?_tree ds rfl]
  rfl

end Document

namespace Value

theorem exists_array_of_head {bs : List UInt8} {v : Value}
    (h : ofBytes? (Store.openBracket :: bs) = some v) : ∃ vs, v = .array vs := by
  obtain ⟨cs, hcs, hv⟩ := ofBytes?_eq_some_iff.1 h
  obtain ⟨x, hx, hv⟩ := Option.bind_eq_some_iff.1 hv
  have hlex := Tree.read?_eq_some_iff.1 hx
  obtain ⟨ds, rfl, -⟩ := Utf8.encode_eq_append (c := '[') hcs.symm
  have hfirst : [Token.openArray] <+: x.tokens := by
    rw [Token.lex, Token.lexOnto_cons [] (by decide) rfl] at hlex
    exact Token.lexOnto_prefix hlex
  cases x with
  | array xs =>
    rw [maxDepth, Tree.value?] at hv
    obtain ⟨vs, -, rfl⟩ := Option.map_eq_some_iff.1 hv
    exact ⟨vs, rfl⟩
  | _ => simp [Tree.tokens] at hfirst

theorem exists_array_of_isArray {bs : List UInt8} {v : Value} (h : ofBytes? bs = some v)
    (harray : Store.isArray bs) : ∃ vs, v = .array vs := by
  have hhead : (Lines.trimStart bs).head? = some Store.openBracket := of_decide_eq_true harray
  obtain ⟨rest, hrest⟩ := List.head?_eq_some_iff.1 hhead
  exact exists_array_of_head (hrest ▸ ofBytes?_trimStart h)

end Value
end Json

namespace Store

open Json

theorem ingestLine_document (s : Store) (d : Document) :
    s.ingestLine d.bytes = s.ingestValue d.value := by
  rw [ingestLine, if_neg (Value.trim_ne_nil d.ofBytes?_bytes), Value.ofBytes?_trim d.ofBytes?_bytes]

theorem extendLines_documents (s : Store) (ds : List Document) :
    s.extendLines (ds.map Document.bytes) = s.extend (ds.map Document.value) := by
  induction ds generalizing s with
  | nil => rfl
  | cons d ds ih =>
    show (s.ingestLine d.bytes).1.extendLines _ = (s.ingestValue d.value).1.extend _
    rw [ingestLine_document, ih]

/-- Whether a file is an array is settled by its first document. -/
theorem isArray_append (d : Document) (rest : List UInt8) :
    isArray (d.bytes ++ rest) = isArray d.bytes := by
  obtain ⟨b, bs, hstart⟩ := List.exists_cons_of_ne_nil (Value.trimStart_ne_nil d.ofBytes?_bytes)
  have happend : Lines.trimStart (d.bytes ++ rest) = b :: bs ++ rest := by
    rw [Lines.trimStart] at hstart ⊢
    rw [List.dropWhile_append, hstart]
    rfl
  rw [isArray, isArray, happend, hstart]
  rfl

/-- Texts that are one document each, nested at most 126 deep and without a line feed, the first of
them no array, give a store the same records whether they stand one on a line or in one array. -/
theorem loadBytes?_forms (s : Store) (texts : List (List UInt8))
    (hvalue : ∀ t ∈ texts, (Value.ofBytes? t).isSome)
    (hdepth : ∀ t ∈ texts, ∀ x ∈ Tree.ofBytes? t, x.depth ≤ 126)
    (hfeed : ∀ t ∈ texts, Lines.lineFeed ∉ t)
    (hfirst : ∀ t ∈ texts.head?, ∀ vs, Value.ofBytes? t ≠ some (.array vs)) :
    ∃ vs, texts.map Value.ofBytes? = vs.map some ∧
      s.loadBytes? (Lines.join texts) = some (s.extend vs) ∧
      s.loadBytes? (Value.arrayBytes texts) = some (s.extend vs) := by
  obtain ⟨ds, rfl⟩ := Document.exists_map_bytes hvalue fun t ht x hx =>
    Nat.lt_succ_of_le (hdepth t ht x hx)
  refine ⟨ds.map Document.value, ?_, ?_, ?_⟩
  · rw [List.map_map, List.map_map]
    exact List.map_congr_left fun d _ => d.ofBytes?_bytes
  · cases ds with
    | nil => rfl
    | cons d ds =>
      have harray : isArray (Lines.join ((d :: ds).map Document.bytes)) = false := by
        rw [List.map_cons, Lines.join, intercalate_cons, isArray_append, Bool.eq_false_iff]
        intro harray
        obtain ⟨vs, hvs⟩ := Value.exists_array_of_isArray d.ofBytes?_bytes harray
        exact hfirst d.bytes rfl vs (hvs ▸ d.ofBytes?_bytes)
      rw [loadBytes?_lines s harray, List.map_cons, Lines.pieces_join hfeed, ← List.map_cons,
        extendLines_documents]
  · have hread := Document.ofBytes?_arrayBytes ds
    have harray : isArray (Value.arrayBytes (ds.map Document.bytes)) = true := rfl
    rw [loadBytes?, loadBytes, if_pos harray, hread]

/-- A begin of a connection between blanks, a record of no known type with a repeated key, and an
array that is no record. -/
theorem loadBytes?_forms_mixed :
    let begun := [" \x7b\"event-number\":1,", "\"date\":\"2024/02/29 ", "00:00:00.000000\",",
      "\"source-ip\":\"a\",", "\"event-type\":\"begin-", "tcp-connection\",",
      "\"destination-ip\":\"b\",", "\"source-port\":1,", "\"destination-port\":80", "\x7d\t\r"]
    let unknown := ["\x7b\"event-type\":[[]],", "\"event-type\":\"x\"\x7d"]
    let texts := [begun, unknown, ["[[-0.5e1] , null]"]].map fun ss =>
      Utf8.encode (ss.flatMap String.toList)
    (∀ t ∈ texts, (Value.ofBytes? t).isSome) ∧
      (∀ t ∈ texts, ∀ x ∈ Tree.ofBytes? t, x.depth ≤ 126) ∧
      (∀ t ∈ texts, Lines.lineFeed ∉ t) ∧
      (∀ t ∈ texts.head?, ∀ vs, Value.ofBytes? t ≠ some (.array vs)) ∧
      ∃ vs, texts.map Value.ofBytes? = vs.map some ∧
        (new .standard).loadBytes? (Lines.join texts) = some ((new .standard).extend vs) ∧
        (new .standard).loadBytes? (Value.arrayBytes texts) = some ((new .standard).extend vs) := by
  intro begun unknown texts
  have hvalue : ∀ t ∈ texts, (Value.ofBytes? t).isSome := by decide +kernel
  have hdepth : ∀ t ∈ texts, ∀ x ∈ Tree.ofBytes? t, x.depth ≤ 126 := by decide +kernel
  have hfeed : ∀ t ∈ texts, Lines.lineFeed ∉ t := by decide +kernel
  have hnone : ∀ t ∈ texts.head?, (Value.elements? t).isNone := by decide +kernel
  have hfirst : ∀ t ∈ texts.head?, ∀ vs, Value.ofBytes? t ≠ some (.array vs) := by
    intro t ht vs hvs
    have hnone := hnone t ht
    rw [Value.elements?_eq_some.2 hvs] at hnone
    cases hnone
  exact ⟨hvalue, hdepth, hfeed, hfirst, loadBytes?_forms _ texts hvalue hdepth hfeed hfirst⟩

end Store
end FlowLog
