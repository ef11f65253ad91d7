import FlowLog.Text.Casing

/-! Lower case of a text under Unicode's full mapping. One capital letter becomes two characters,
the dotted capital i; a capital sigma becomes final where it ends a word, that is after a cased
character and not before one, other marks aside. -/

namespace FlowLog
namespace Lowercase

def ignorable (c : Char) : Bool := Casing.ignorableRanges.has c

def cased (c : Char) : Bool := Casing.casedRanges.has c

/-- Whether the first character that counts is cased. -/
def meetsCased (cs : List Char) : Bool :=
  match cs.dropWhile ignorable with
  | [] => false
  | c :: _ => cased c

def char (c : Char) : List Char :=
  if c.toNat < 128 then [c.toLower]
  else if c.toNat = 0x130 then ['i', '\u0307']
  else match Casing.lowerShifts.find? (·.covers c) with
    | some s => [s.move c]
    | none => [c]

/-- The mapping of `cs`, which stands after the characters `before`, held in reverse. -/
def after (before : List Char) : List Char → List Char
  | [] => []
  | c :: r =>
    (if c = 'Σ' then [if meetsCased before && !meetsCased r then 'ς' else 'σ'] else char c) ++
      after (c :: before) r

def text (s : String) : String := String.ofList (after [] s.toList)

end Lowercase
end FlowLog
