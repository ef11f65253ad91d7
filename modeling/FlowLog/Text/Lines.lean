/-! Lines of bytes. Blank bytes are space, tab, line feed, form feed and carriage return; a line
ends at a line feed, and a text of `n` line feeds has `n + 1` pieces. -/

namespace FlowLog
namespace Lines

def lineFeed : UInt8 := 10

def isBlank (b : UInt8) : Bool := b == 32 || b == 9 || b == 10 || b == 12 || b == 13

def trimStart (bs : List UInt8) : List UInt8 := bs.dropWhile isBlank

def trim (bs : List UInt8) : List UInt8 := (trimStart (trimStart bs).reverse).reverse

/-- Puts one byte in front of the pieces of what follows it. -/
def push (b : UInt8) (pieces : List (List UInt8)) : List (List UInt8) :=
  if b = lineFeed then [] :: pieces
  else match pieces with
    | [] => [[b]]
    | piece :: rest => (b :: piece) :: rest

/-- The pieces between line feeds; the last one may be empty. -/
def pieces (bs : List UInt8) : List (List UInt8) := bs.foldr push [[]]

@[simp] theorem pieces_nil : pieces [] = [[]] := rfl
@[simp] theorem pieces_cons (b : UInt8) (bs : List UInt8) :
    pieces (b :: bs) = push b (pieces bs) := rfl

/-- The lines that a reader meets: the piece after the last line feed counts only if it holds
a byte. -/
def lines (bs : List UInt8) : List (List UInt8) :=
  let all := pieces bs
  if all.getLast? = some [] then all.dropLast else all

end Lines
end FlowLog
