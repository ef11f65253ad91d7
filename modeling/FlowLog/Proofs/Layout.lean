import FlowLog.Proofs.Documents

/-! JSON text with each element and member on a line of its own is cut into the same tokens as compact
text: line feeds and indents stand only where blanks may. So it is read as the same document. -/

namespace FlowLog
namespace Json
namespace Value

theorem isBlank_of_mem_lineAt (indent : Nat) : ∀ b ∈ lineAt indent, isBlank b := by
  rw [lineAt, List.forall_mem_cons]
  exact ⟨by decide, fun b hb => List.eq_of_mem_replicate hb ▸ by decide⟩

def prettyElement (indent : Nat) (x : Value) : List Char := lineAt indent ++ x.prettyAt indent

theorem prettyElements_eq (indent : Nat) : ∀ xs : List Value,
    prettyElements indent xs = [','].intercalate (xs.map (prettyElement indent)) :=
  eq_intercalate rfl (fun _ => rfl) (fun _ _ _ => rfl)

def prettyMember (indent : Nat) (m : String × Value) : List Char :=
  lineAt indent ++ quoted m.1 ++ ':' :: ([' '] ++ m.2.prettyAt indent)

theorem prettyMembers_eq (indent : Nat) : ∀ ms : List (String × Value),
    prettyMembers indent ms = [','].intercalate (ms.map (prettyMember indent)) :=
  eq_intercalate rfl (fun _ => rfl) (fun m n ms => by simp [prettyMembers, prettyMember])

/-- The text of a value is cut into the tokens of its tree at any indent. -/
theorem lex_prettyAt {depth : Nat} {v : Value} (h : Plain depth v) (indent : Nat) :
    Token.lex (v.prettyAt indent) = some v.tree.tokens := by
  induction h generalizing indent with
  | null depth => exact lex_compact (.null depth)
  | bool depth b => exact lex_compact (.bool depth b)
  | natural depth n => exact lex_compact (.natural depth n)
  | string depth s => exact lex_compact (.string depth s)
  | @array depth xs h ih =>
    cases xs with
    | nil => exact lex_compact (Plain.array h : Plain (depth + 1) _)
    | cons x xs =>
      have hitems : ∀ y ∈ x :: xs, Token.lex (prettyElement (indent + 1) y) =
          some y.tree.tokens := by
        intro y hy
        rw [prettyElement, Token.lex, Token.lexOnto_blanks (isBlank_of_mem_lineAt _)]
        exact ih y hy (indent + 1)
      have hlex := Token.lex_brackets hitems (isBlank_of_mem_lineAt indent)
      rw [prettyAt, prettyElements_eq, tree, Tree.tokens, Tree.elementTokens_eq, elementTrees_eq]
      simpa [Function.comp_def] using hlex
  | @object depth ms h ih =>
    cases ms with
    | nil => exact lex_compact (Plain.object h : Plain (depth + 1) _)
    | cons m ms =>
      have hspace : ∀ b ∈ [' '], isBlank b := List.forall_mem_singleton.2 (by decide)
      have hitems : ∀ n ∈ m :: ms, Token.lex (prettyMember (indent + 1) n) =
          some (Tree.oneMemberTokens (n.1.toList.map Quoted.piece, n.2.tree)) := fun n hn =>
        Token.lex_member (isBlank_of_mem_lineAt _) hspace n.1 (ih n hn (indent + 1))
      have hlex := Token.lex_braces hitems (isBlank_of_mem_lineAt indent)
      rw [prettyAt, prettyMembers_eq, tree, Tree.tokens, Tree.memberTokens_eq, memberTrees_eq]
      simpa [Function.comp_def] using hlex

theorem lex_prettyText {depth : Nat} {v : Value} (h : Plain depth v) :
    Token.lex v.prettyText.toList = some v.tree.tokens := by
  rw [prettyText, String.toList_ofList]
  exact lex_prettyAt h 0

end Value
end Json
end FlowLog
