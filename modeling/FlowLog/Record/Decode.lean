import FlowLog.Record

/-! Records from JSON values. An object gives a field by its name and ignores other names; an array
gives all nineteen in declared order; null stands for an absent field. The members of an object
are visited in ascending order of their names and the first fault is reported. -/

namespace FlowLog

/-- What a record's text may fail to hold: a field's content, or the record as a whole. -/
inductive Wanted
  | field (s : Shape)
  | record

inductive Malformed
  | wrongType (found : Json.Value) (wanted : Wanted)
  | outOfRange (found : Json.Number) (wanted : Wanted)
  | tooShort (length : Nat)
  | tooLong (length : Nat)

namespace Wanted

def text : Wanted → String
  | field .u8 => "u8"
  | field .u16 => "u16"
  | field .u64 => "u64"
  | field .text => "a string"
  | field .texts => "a sequence"
  | record => "struct EventRecord"

end Wanted

namespace Malformed

def numberText (n : Json.Number) : String := String.ofList n.chars

def foundText : Json.Value → String
  | .null => "null"
  | .bool b => "boolean \x60" ++ (if b then "true" else "false") ++ "\x60"
  | .number (.float x) => "floating point \x60" ++ numberText (.float x) ++ "\x60"
  | .number n => "integer \x60" ++ numberText n ++ "\x60"
  | .string s => "string " ++ Quotation.quote s
  | .array _ => "sequence"
  | .object _ => "map"

def message : Malformed → String
  | wrongType v w => "invalid type: " ++ foundText v ++ ", expected " ++ w.text
  | outOfRange n w =>
    "invalid value: integer \x60" ++ numberText n ++ "\x60, expected " ++ w.text
  | tooShort n =>
    "invalid length " ++ Decimal.text n ++ ", expected struct EventRecord with 19 elements"
  | tooLong n => "invalid length " ++ Decimal.text n ++ ", expected fewer elements in array"

end Malformed

namespace Shape

/-- A natural number below the limit. -/
def decodeBelow (s : Shape) (limit : Nat) : Json.Value → Except Malformed Nat
  | .number (.natural n) =>
    if n.toNat < limit then .ok n.toNat else .error (.outOfRange (.natural n) (.field s))
  | .number (.negative n) => .error (.outOfRange (.negative n) (.field s))
  | v => .error (.wrongType v (.field s))

def decodeText : Json.Value → Except Malformed String
  | .string s => .ok s
  | v => .error (.wrongType v (.field .text))

def decodeTexts : List Json.Value → Except Malformed (List String)
  | [] => .ok []
  | v :: vs => do
    let s ← decodeText v
    let ss ← decodeTexts vs
    .ok (s :: ss)

def decode : (s : Shape) → Json.Value → Except Malformed s.Carrier
  | u8, v => (decodeBelow u8 UInt8.size v).map Nat.toUInt8
  | u16, v => (decodeBelow u16 UInt16.size v).map Nat.toUInt16
  | u64, v => (decodeBelow u64 UInt64.size v).map Nat.toUInt64
  | text, v => decodeText v
  | texts, .array vs => decodeTexts vs
  | texts, v => .error (.wrongType v (.field texts))

end Shape

def Field.decode (f : Field) : Json.Value → Except Malformed (Option f.Carrier)
  | .null => .ok none
  | v => (f.shape.decode v).map some

namespace Record

def decodeMember (r : Record) (k : String) (v : Json.Value) : Except Malformed Record :=
  match Field.ofName? k with
  | none => .ok r
  | some f => (f.decode v).map (r.put f)

def decodeMembers (r : Record) : List (String × Json.Value) → Except Malformed Record
  | [] => .ok r
  | (k, v) :: ms => do decodeMembers (← r.decodeMember k v) ms

/-- The fields in order from an array that has `length` elements in all. -/
def decodeElements (length : Nat) (r : Record) :
    List Field → List Json.Value → Except Malformed Record
  | [], [] => .ok r
  | [], _ :: _ => .error (.tooLong length)
  | _ :: _, [] => .error (.tooShort length)
  | f :: fs, v :: vs => do
    let x ← f.decode v
    decodeElements length (r.put f x) fs vs

def ofValue : Json.Value → Except Malformed Record
  | .object ms => empty.decodeMembers ms
  | .array vs => empty.decodeElements vs.length Field.all vs
  | v => .error (.wrongType v .record)

end Record
end FlowLog
