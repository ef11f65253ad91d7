/-! UTF-8 over lists of bytes. `encode` writes one to four bytes a character; `decode` accepts
exactly the shortest forms of Unicode scalar values, so a text has one encoding and every other
byte sequence is refused as a whole. -/

namespace FlowLog
namespace Utf8

def encodeChar (c : Char) : List UInt8 :=
  let n := c.toNat
  if n < 0x80 then [n.toUInt8]
  else if n < 0x800 then [(0xC0 + n / 64).toUInt8, (0x80 + n % 64).toUInt8]
  else if n < 0x10000 then
    [(0xE0 + n / 4096).toUInt8, (0x80 + n / 64 % 64).toUInt8, (0x80 + n % 64).toUInt8]
  else
    [(0xF0 + n / 262144).toUInt8, (0x80 + n / 4096 % 64).toUInt8, (0x80 + n / 64 % 64).toUInt8,
      (0x80 + n % 64).toUInt8]

def encode (cs : List Char) : List UInt8 := cs.flatMap encodeChar

@[simp] theorem encode_nil : encode [] = [] := rfl
@[simp] theorem encode_cons (c : Char) (cs : List Char) :
    encode (c :: cs) = encodeChar c ++ encode cs := rfl
@[simp] theorem encode_append (cs ds : List Char) :
    encode (cs ++ ds) = encode cs ++ encode ds := by simp [encode]

/-- The six bits that a continuation byte carries. -/
def tail? (b : UInt8) : Option Nat :=
  if 0x80 ≤ b.toNat ∧ b.toNat < 0xC0 then some (b.toNat - 0x80) else none

/-- The scalar value `n`, unless a shorter form would hold it. -/
def scalar? (least n : Nat) : Option Char :=
  if h : least ≤ n ∧ n.isValidChar then some (Char.ofNatAux n h.2) else none

/-- The first character and the bytes after it. -/
def next? : List UInt8 → Option (Char × List UInt8)
  | [] => none
  | a :: r =>
    if a.toNat < 0x80 then (scalar? 0 a.toNat).map (·, r)
    else if a.toNat < 0xC0 then none
    else if a.toNat < 0xE0 then
      match r with
      | b :: r => do
        let x ← tail? b
        (scalar? 0x80 ((a.toNat - 0xC0) * 64 + x)).map (·, r)
      | _ => none
    else if a.toNat < 0xF0 then
      match r with
      | b :: c :: r => do
        let x ← tail? b
        let y ← tail? c
        (scalar? 0x800 ((a.toNat - 0xE0) * 4096 + x * 64 + y)).map (·, r)
      | _ => none
    else
      match r with
      | b :: c :: d :: r => do
        let x ← tail? b
        let y ← tail? c
        let z ← tail? d
        (scalar? 0x10000 ((a.toNat - 0xF0) * 262144 + x * 4096 + y * 64 + z)).map (·, r)
      | _ => none

theorem next?_shorter {bs rest : List UInt8} {c : Char} (h : next? bs = some (c, rest)) :
    rest.length < bs.length := by
  unfold next? at h
  repeat' split at h
  all_goals simp [Option.bind_eq_some_iff] at h
  all_goals grind

/-- Decodes behind the characters `done`, held in reverse. -/
def decodeOnto (done : List Char) (bs : List UInt8) : Option (List Char) :=
  match bs with
  | [] => some done.reverse
  | b :: r =>
    match h : next? (b :: r) with
    | none => none
    | some (c, rest) =>
      have := next?_shorter h
      decodeOnto (c :: done) rest
termination_by bs.length
decreasing_by exact this

def decode (bs : List UInt8) : Option (List Char) := decodeOnto [] bs

end Utf8
end FlowLog
