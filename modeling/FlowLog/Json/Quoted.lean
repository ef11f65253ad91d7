import FlowLog.Text.Quotation

/-! Strings in JSON text. Between the quotes stand pieces: a character, written as such or by a
one-letter escape, or a 16-bit unit written as four hexadecimal digits. Two units may form one
character; a unit that is half of such a pair alone has no meaning. -/

namespace FlowLog
namespace Json

inductive Piece
  | char (c : Char)
  | unit (n : Nat)
  deriving DecidableEq, Repr

namespace Quoted

def hexValue? (c : Char) : Option Nat :=
  let n := c.toNat
  if 48 ≤ n ∧ n ≤ 57 then some (n - 48)
  else if 97 ≤ n ∧ n ≤ 102 then some (n - 87)
  else if 65 ≤ n ∧ n ≤ 70 then some (n - 55)
  else none

def unit? (a b c d : Char) : Option Nat := do
  let a ← hexValue? a
  let b ← hexValue? b
  let c ← hexValue? c
  let d ← hexValue? d
  some (a * 4096 + b * 256 + c * 16 + d)

def named? : Char → Option Char
  | '"' => some '"'
  | '\\' => some '\\'
  | '/' => some '/'
  | 'b' => some '\x08'
  | 'f' => some '\x0c'
  | 'n' => some '\n'
  | 'r' => some '\r'
  | 't' => some '\t'
  | _ => none

/-- The pieces up to the closing quote, and what follows it. -/
def read? : List Char → Option (List Piece × List Char)
  | '"' :: r => some ([], r)
  | '\\' :: 'u' :: a :: b :: c :: d :: r => do
    let n ← unit? a b c d
    let (ps, rest) ← read? r
    some (.unit n :: ps, rest)
  | '\\' :: e :: r => do
    let c ← named? e
    let (ps, rest) ← read? r
    some (.char c :: ps, rest)
  | c :: r =>
    if c.toNat < 32 ∨ c = '\\' then none
    else do
      let (ps, rest) ← read? r
      some (.char c :: ps, rest)
  | [] => none

theorem read?_length {s rest : List Char} {ps : List Piece}
    (h : read? s = some (ps, rest)) : rest.length < s.length := by
  fun_induction read? s generalizing ps rest with
  | case1 r => simp_all
  | case2 a b c d r ih =>
    simp only [Option.bind_eq_bind, Option.bind_eq_some_iff, Option.some.injEq] at h
    obtain ⟨_, _, ⟨_, _⟩, h, h'⟩ := h
    have := ih h
    simp_all
    omega
  | case3 e r _ ih =>
    simp only [Option.bind_eq_bind, Option.bind_eq_some_iff, Option.some.injEq] at h
    obtain ⟨_, _, ⟨_, _⟩, h, h'⟩ := h
    have := ih h
    simp_all
    omega
  | case4 => simp at h
  | case5 c r _ _ _ _ ih =>
    simp only [Option.bind_eq_bind, Option.bind_eq_some_iff, Option.some.injEq] at h
    obtain ⟨⟨_, _⟩, h, h'⟩ := h
    have := ih h
    simp_all
    omega
  | case6 => simp at h

def isHigh (n : Nat) : Bool := 0xD800 ≤ n && n < 0xDC00
def isLow (n : Nat) : Bool := 0xDC00 ≤ n && n < 0xE000

def joinUnits (high low : Nat) : Nat := 0x10000 + (high - 0xD800) * 1024 + (low - 0xDC00)

/-- The characters that the pieces stand for. -/
def chars? : List Piece → Option (List Char)
  | [] => some []
  | .char c :: r => (chars? r).map (c :: ·)
  | .unit n :: .unit m :: r =>
    if isHigh n then
      if isLow m then (chars? r).map (Char.ofNat (joinUnits n m) :: ·) else none
    else if isLow n then none
    else (chars? (.unit m :: r)).map (Char.ofNat n :: ·)
  | .unit n :: r =>
    if isHigh n || isLow n then none else (chars? r).map (Char.ofNat n :: ·)

/-- Quote, backslash and controls are escaped, by letter where there is one. -/
def escape (c : Char) : List Char :=
  match c with
  | '"' => ['\\', '"']
  | '\\' => ['\\', '\\']
  | '\x08' => ['\\', 'b']
  | '\x0c' => ['\\', 'f']
  | '\n' => ['\\', 'n']
  | '\r' => ['\\', 'r']
  | '\t' => ['\\', 't']
  | c =>
    if c.toNat < 32 then
      ['\\', 'u', '0', '0', Quotation.hexDigit (c.toNat / 16), Quotation.hexDigit (c.toNat % 16)]
    else [c]

def write (cs : List Char) : List Char := '"' :: cs.flatMap escape ++ ['"']

end Quoted
end Json
end FlowLog
