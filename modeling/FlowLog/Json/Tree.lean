import FlowLog.Json.Token

/-! JSON documents as they are written. A tree keeps the tokens of its leaves and the order and
repetition of its members, so `tokens` and `ofTokens?` are inverse to each other. The reader goes
through the tokens once, with the containers that are still open on a stack. -/

namespace FlowLog
namespace Json

inductive Tree
  | null
  | bool (b : Bool)
  | number (n : Numeral)
  | string (s : List Piece)
  | array (elements : List Tree)
  | object (members : List (List Piece × Tree))

namespace Tree

mutual

def tokens : Tree → List Token
  | null => [.null]
  | bool b => [.bool b]
  | number n => [.number n]
  | string s => [.string s]
  | array xs => .openArray :: elementTokens xs
  | object ms => .openObject :: memberTokens ms

/-- The elements and the bracket that closes them. -/
def elementTokens : List Tree → List Token
  | [] => [.closeArray]
  | x :: xs => tokens x ++ moreElementTokens xs

def moreElementTokens : List Tree → List Token
  | [] => [.closeArray]
  | x :: xs => .comma :: tokens x ++ moreElementTokens xs

/-- The members and the brace that closes them. -/
def memberTokens : List (List Piece × Tree) → List Token
  | [] => [.closeObject]
  | (k, x) :: ms => .string k :: .colon :: tokens x ++ moreMemberTokens ms

def moreMemberTokens : List (List Piece × Tree) → List Token
  | [] => [.closeObject]
  | (k, x) :: ms => .comma :: .string k :: .colon :: tokens x ++ moreMemberTokens ms

end

/-- An open container: what it holds so far, in reverse, and for an object the key of the member
that is being read. -/
inductive Frame
  | array (done : List Tree)
  | object (done : List (List Piece × Tree)) (key : List Piece)

/-- What may come next: a value; a value or the end of an array; a key, or the end of an object
that is still empty; a colon; or whatever follows a value. -/
inductive State
  | value (stack : List Frame)
  | element (stack : List Frame)
  | key (stack : List Frame) (done : List (List Piece × Tree)) (first : Bool)
  | colon (stack : List Frame) (done : List (List Piece × Tree)) (key : List Piece)
  | after (stack : List Frame) (x : Tree)

def begin? (stack : List Frame) : Token → Option State
  | .null => some (.after stack null)
  | .bool b => some (.after stack (bool b))
  | .number n => some (.after stack (number n))
  | .string s => some (.after stack (string s))
  | .openArray => some (.element stack)
  | .openObject => some (.key stack [] true)
  | _ => none

def follow? (x : Tree) : List Frame → Token → Option State
  | .array done :: stack, .comma => some (.value (.array (x :: done) :: stack))
  | .array done :: stack, .closeArray => some (.after stack (array (x :: done).reverse))
  | .object done k :: stack, .comma => some (.key stack ((k, x) :: done) false)
  | .object done k :: stack, .closeObject => some (.after stack (object ((k, x) :: done).reverse))
  | _, _ => none

def step? : State → Token → Option State
  | .value stack, t => begin? stack t
  | .element stack, .closeArray => some (.after stack (array []))
  | .element stack, t => begin? (.array [] :: stack) t
  | .key stack _ true, .closeObject => some (.after stack (object []))
  | .key stack done _, .string k => some (.colon stack done k)
  | .key _ _ _, _ => none
  | .colon stack done k, .colon => some (.value (.object done k :: stack))
  | .colon _ _ _, _ => none
  | .after stack x, t => follow? x stack t

def run? (s : State) (ts : List Token) : Option State := ts.foldlM step? s

@[simp] theorem run?_nil (s : State) : run? s [] = some s := rfl
@[simp] theorem run?_append (s : State) (ts us : List Token) :
    run? s (ts ++ us) = (run? s ts).bind (run? · us) := by simp [run?]

def ofTokens? (ts : List Token) : Option Tree :=
  match run? (.value []) ts with
  | some (.after [] x) => some x
  | _ => none

def read? (s : List Char) : Option Tree := (Token.lex s).bind ofTokens?

end Tree
end Json
end FlowLog
