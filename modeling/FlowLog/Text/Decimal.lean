/-! Decimal digits of natural numbers, as values below ten when read and as characters when
written. -/

namespace FlowLog
namespace Decimal

def digitChar (d : Nat) : Char := Char.ofNat (48 + d)

/-- Only the ten ASCII digits count. -/
def digit? (c : Char) : Option Nat :=
  if 48 ≤ c.toNat ∧ c.toNat ≤ 57 then some (c.toNat - 48) else none

def value (ds : List Nat) : Nat := ds.foldl (fun n d => 10 * n + d) 0

@[simp] theorem value_nil : value [] = 0 := rfl
@[simp] theorem value_concat (ds : List Nat) (d : Nat) :
    value (ds ++ [d]) = 10 * value ds + d := by simp [value]

/-- The digits of `n`, the most significant first; zero has one. -/
def digits (n : Nat) : List Nat :=
  if n < 10 then [n] else digits (n / 10) ++ [n % 10]

theorem digits_value (n : Nat) : value (digits n) = n := by
  fun_induction digits n with
  | case1 n h => simp [value]
  | case2 n h ih => rw [value_concat, ih]; omega

theorem digits_lt (n : Nat) : ∀ d ∈ digits n, d < 10 := by
  fun_induction digits n with
  | case1 n h => simpa using h
  | case2 n h ih =>
    intro d hd
    rcases List.mem_append.1 hd with hd | hd
    · exact ih d hd
    · rw [List.mem_singleton.1 hd]; omega

def chars (n : Nat) : List Char := (digits n).map digitChar

/-- Zeros in front up to `width` characters. -/
def padded (width n : Nat) : List Char :=
  List.replicate (width - (chars n).length) '0' ++ chars n

def text (n : Nat) : String := String.ofList (chars n)

def intText (m : Int) : String := if m < 0 then "-" ++ text m.natAbs else text m.natAbs

/-- The digits in front, and what follows the last of them. -/
def run : List Char → List Nat × List Char
  | [] => ([], [])
  | c :: r =>
    match digit? c with
    | none => ([], c :: r)
    | some d => (d :: (run r).1, (run r).2)

theorem run_length (s : List Char) : (run s).2.length + (run s).1.length = s.length := by
  induction s with
  | nil => rfl
  | cons c r ih =>
    simp only [run]
    split
    · simp
    · simp only [List.length_cons]
      omega

/-- At least one digit in front. -/
def some? (s : List Char) : Option (List Nat × List Char) :=
  if (run s).1 = [] then none else some (run s)

theorem some?_length {s rest : List Char} {ds : List Nat} (h : some? s = some (ds, rest)) :
    rest.length < s.length := by
  have hr := run_length s
  simp only [some?, Option.ite_none_left_eq_some, Option.some.injEq] at h
  have := List.length_pos_iff.2 h.1
  rw [h.2] at hr this
  simp only at hr this
  omega

/-- Exactly `width` digits in front. -/
def fixed? : Nat → List Char → Option (List Nat × List Char)
  | 0, s => some ([], s)
  | _ + 1, [] => none
  | width + 1, c :: r => do
    let d ← digit? c
    let (ds, rest) ← fixed? width r
    some (d :: ds, rest)

end Decimal
end FlowLog
