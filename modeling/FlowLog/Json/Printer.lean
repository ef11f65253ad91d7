import FlowLog.Json.Value

/-! Written forms of JSON values: `compact` without any blank, and `pretty` with each element and
member on a line of its own, indented by two spaces a level. Members keep their order. -/

namespace FlowLog
namespace Json
namespace Value

def quoted (s : String) : List Char := Quoted.write s.toList

mutual

def compact : Value → List Char
  | null => "null".toList
  | bool b => if b then "true".toList else "false".toList
  | number n => n.chars
  | string s => quoted s
  | array xs => '[' :: compactElements xs ++ [']']
  | object ms => '\x7b' :: compactMembers ms ++ ['\x7d']

def compactElements : List Value → List Char
  | [] => []
  | [x] => compact x
  | x :: xs => compact x ++ ',' :: compactElements xs

def compactMembers : List (String × Value) → List Char
  | [] => []
  | [(k, x)] => quoted k ++ ':' :: compact x
  | (k, x) :: ms => quoted k ++ ':' :: compact x ++ ',' :: compactMembers ms

end

def lineAt (indent : Nat) : List Char := '\n' :: List.replicate (2 * indent) ' '

mutual

/-- The form of a value whose own line is indented by `indent` levels. -/
def prettyAt (indent : Nat) : Value → List Char
  | array [] => ['[', ']']
  | array (x :: xs) => '[' :: prettyElements (indent + 1) (x :: xs) ++ lineAt indent ++ [']']
  | object [] => ['\x7b', '\x7d']
  | object (m :: ms) =>
    '\x7b' :: prettyMembers (indent + 1) (m :: ms) ++ lineAt indent ++ ['\x7d']
  | v => compact v

def prettyElements (indent : Nat) : List Value → List Char
  | [] => []
  | [x] => lineAt indent ++ prettyAt indent x
  | x :: xs => lineAt indent ++ prettyAt indent x ++ ',' :: prettyElements indent xs

def prettyMembers (indent : Nat) : List (String × Value) → List Char
  | [] => []
  | [(k, x)] => lineAt indent ++ quoted k ++ ':' :: ' ' :: prettyAt indent x
  | (k, x) :: ms =>
    lineAt indent ++ quoted k ++ ':' :: ' ' :: prettyAt indent x ++ ',' :: prettyMembers indent ms

end

def compactText (v : Value) : String := String.ofList v.compact

def prettyText (v : Value) : String := String.ofList (v.prettyAt 0)

end Value
end Json
end FlowLog
