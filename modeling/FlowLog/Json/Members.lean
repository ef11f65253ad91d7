/-! The members of an object by key. The list is ascending in the key and holds each key once; of
two members under one key the later one stays. Keys ascend by code point, which is also the order
of their UTF-8 bytes. -/

namespace FlowLog
namespace Json
namespace Members

variable {α : Type}

def insert (k : String) (x : α) : List (String × α) → List (String × α)
  | [] => [(k, x)]
  | (k', x') :: ms =>
    if k < k' then (k, x) :: (k', x') :: ms
    else if k = k' then (k, x) :: ms
    else (k', x') :: insert k x ms

def ofList (ms : List (String × α)) : List (String × α) :=
  ms.foldl (fun done m => insert m.1 m.2 done) []

def get? (k : String) : List (String × α) → Option α
  | [] => none
  | (k', x) :: ms => if k = k' then some x else get? k ms

@[simp] theorem get?_nil (k : String) : get? k ([] : List (String × α)) = none := rfl

end Members
end Json
end FlowLog
