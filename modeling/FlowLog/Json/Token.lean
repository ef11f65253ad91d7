import FlowLog.Json.Numeral
import FlowLog.Json.Quoted

/-! Tokens of JSON text. Blanks between tokens are space, tab, line feed and carriage return; they
leave no trace. A token keeps what is written, so a numeral out of range or half a pair of units is
refused only by whoever needs its value. -/

namespace FlowLog
namespace Json

inductive Token
  | openArray | closeArray | openObject | closeObject | comma | colon
  | null
  | bool (b : Bool)
  | number (n : Numeral)
  | string (s : List Piece)
  deriving DecidableEq, Repr

def isBlank (c : Char) : Bool := c == ' ' || c == '\t' || c == '\n' || c == '\r'

namespace Token

/-- What follows a word. -/
def after? : List Char → List Char → Option (List Char)
  | [], s => some s
  | _ :: _, [] => none
  | w :: ws, c :: r => if w = c then after? ws r else none

theorem after?_eq {w s rest : List Char} (h : after? w s = some rest) : s = w ++ rest := by
  induction w generalizing s with
  | nil => simpa [after?] using h
  | cons w ws ih => cases s with
    | nil => simp [after?] at h
    | cons c r =>
      by_cases hc : w = c
      · subst hc
        rw [after?, if_pos rfl] at h
        rw [ih h, List.cons_append]
      · simp [after?, hc] at h

/-- The token that begins with the character `c`, and what follows it. -/
def read? (c : Char) (r : List Char) : Option (Token × List Char) :=
  match c with
  | '[' => some (openArray, r)
  | ']' => some (closeArray, r)
  | '{' => some (openObject, r)
  | '}' => some (closeObject, r)
  | ',' => some (comma, r)
  | ':' => some (colon, r)
  | '"' => (Quoted.read? r).map fun (s, rest) => (string s, rest)
  | 'n' => (after? ['u', 'l', 'l'] r).map (null, ·)
  | 't' => (after? ['r', 'u', 'e'] r).map (bool true, ·)
  | 'f' => (after? ['a', 'l', 's', 'e'] r).map (bool false, ·)
  | c => (Numeral.read? (c :: r)).map fun (n, rest) => (number n, rest)

theorem read?_length {c : Char} {r rest : List Char} {t : Token}
    (h : read? c r = some (t, rest)) : rest.length ≤ r.length := by
  unfold read? at h
  split at h
  case h_7 =>
    obtain ⟨⟨ps, rest'⟩, hq, h⟩ := Option.map_eq_some_iff.1 h
    have := Quoted.read?_length hq
    grind
  case h_8 | h_9 | h_10 =>
    obtain ⟨rest', hq, h⟩ := Option.map_eq_some_iff.1 h
    have := after?_eq hq
    grind
  case h_11 =>
    obtain ⟨⟨n, rest'⟩, hq, h⟩ := Option.map_eq_some_iff.1 h
    have := Numeral.read?_length hq
    grind
  all_goals grind

/-- The tokens of `s` behind the tokens `done`, held in reverse. -/
def lexOnto (done : List Token) (s : List Char) : Option (List Token) :=
  match s with
  | [] => some done.reverse
  | c :: r =>
    if isBlank c then lexOnto done r
    else match h : read? c r with
      | none => none
      | some (t, rest) =>
        have := Nat.lt_succ_of_le (read?_length h)
        lexOnto (t :: done) rest
termination_by s.length
decreasing_by
  · exact Nat.lt_succ_self r.length
  · exact this

def lex (s : List Char) : Option (List Token) := lexOnto [] s

end Token
end Json
end FlowLog
