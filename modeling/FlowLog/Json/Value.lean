import FlowLog.Json.Members
import FlowLog.Json.Tree

/-! JSON values. A tree has a value when its strings are texts, its numbers are in range and its
containers are nested at most 127 deep; the members of its objects are then taken by key. -/

namespace FlowLog
namespace Json

inductive Value
  | null
  | bool (b : Bool)
  | number (n : Number)
  | string (s : String)
  | array (elements : List Value)
  | object (members : List (String × Value))

def Quoted.text? (s : List Piece) : Option String := (Quoted.chars? s).map String.ofList

namespace Tree

mutual

/-- The value of a tree with room for `depth` containers inside each other. -/
def value? (depth : Nat) : Tree → Option Value
  | null => some .null
  | bool b => some (.bool b)
  | number n => n.value?.map .number
  | string s => (Quoted.text? s).map .string
  | array xs =>
    match depth with
    | 0 => none
    | depth + 1 => (elements? depth xs).map .array
  | object ms =>
    match depth with
    | 0 => none
    | depth + 1 => (members? depth ms).map fun ms => .object (Members.ofList ms)

def elements? (depth : Nat) : List Tree → Option (List Value)
  | [] => some []
  | x :: xs => do
    let v ← value? depth x
    let vs ← elements? depth xs
    some (v :: vs)

def members? (depth : Nat) : List (List Piece × Tree) → Option (List (String × Value))
  | [] => some []
  | (k, x) :: ms => do
    let k ← Quoted.text? k
    let v ← value? depth x
    let ms ← members? depth ms
    some ((k, v) :: ms)

end

end Tree

namespace Value

def maxDepth : Nat := 127

def read? (s : List Char) : Option Value := (Tree.read? s).bind (Tree.value? maxDepth)

def get? (k : String) : Value → Option Value
  | object ms => Members.get? k ms
  | _ => none

def ofNat (n : Nat) : Value := number (.natural n.toUInt64)

def ofOption (x : Option Value) : Value := x.getD null

def strings (xs : List String) : Value := array (xs.map string)

mutual

/-- The same value with the members of every object in ascending order of their keys. -/
def sorted : Value → Value
  | array xs => array (sortedElements xs)
  | object ms => object (Members.ofList (sortedMembers ms))
  | v => v

def sortedElements : List Value → List Value
  | [] => []
  | x :: xs => sorted x :: sortedElements xs

def sortedMembers : List (String × Value) → List (String × Value)
  | [] => []
  | (k, x) :: ms => (k, sorted x) :: sortedMembers ms

end

end Value
end Json
end FlowLog
