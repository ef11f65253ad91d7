/-! Sets that list their elements in the order of their first insertion. What was inserted is kept
twice: in the list, and as a test that insertions and questions are answered by. Two sets are compared
by their lists, so the order counts and the test does not. -/

namespace FlowLog

structure InsertionSet (α : Type) where
  toList : List α
  seen : α → Bool
  nodup : toList.Nodup
  seen_iff : ∀ x, seen x ↔ x ∈ toList

namespace InsertionSet

variable {α : Type}

/-- The list tells what the test answers, so a set has no more to it. -/
@[ext] theorem ext {s t : InsertionSet α} (h : s.toList = t.toList) : s = t := by
  have hseen : s.seen = t.seen := by
    funext x
    rw [Bool.eq_iff_iff, s.seen_iff, t.seen_iff, h]
  cases s
  cases t
  cases h
  cases hseen
  rfl

def empty : InsertionSet α := ⟨[], fun _ => false, .nil, fun _ => by simp⟩

@[simp] theorem empty_toList : (empty : InsertionSet α).toList = [] := rfl

def contains (s : InsertionSet α) (x : α) : Bool := s.seen x

def size (s : InsertionSet α) : Nat := s.toList.length

def isEmpty (s : InsertionSet α) : Bool := s.toList.isEmpty

theorem contains_iff {s : InsertionSet α} {x : α} : s.contains x ↔ x ∈ s.toList := s.seen_iff x

variable [DecidableEq α]

instance : DecidableEq (InsertionSet α) := fun s t =>
  if h : s.toList = t.toList then isTrue (ext h) else isFalse fun e => h (e ▸ rfl)

/-- Adds an element at the end unless it was seen, and tells whether it did. -/
def add (s : InsertionSet α) (x : α) : InsertionSet α × Bool :=
  if h : s.seen x then (s, false)
  else
    ({ toList := s.toList ++ [x]
       seen := fun y => y = x || s.seen y
       nodup := by
        rw [List.nodup_append]
        refine ⟨s.nodup, by simp, fun a ha b hb e => h ((s.seen_iff x).2 ?_)⟩
        exact List.mem_singleton.1 hb ▸ e ▸ ha
       seen_iff := fun y => by simp [s.seen_iff, or_comm] }, true)

def insert (s : InsertionSet α) (x : α) : InsertionSet α := (s.add x).1

/-- Whether an insertion would add the element. -/
def isNew (s : InsertionSet α) (x : α) : Bool := (s.add x).2

theorem isNew_eq (s : InsertionSet α) (x : α) : s.isNew x = !s.contains x := by
  unfold isNew add contains
  split <;> simp_all

theorem insert_toList (s : InsertionSet α) (x : α) :
    (s.insert x).toList = if x ∈ s.toList then s.toList else s.toList ++ [x] := by
  simp only [← s.seen_iff x]
  unfold insert add
  split <;> rfl

def insertAll (s : InsertionSet α) (xs : List α) : InsertionSet α := xs.foldl insert s

def ofList (xs : List α) : InsertionSet α := empty.insertAll xs

@[simp] theorem insertAll_nil (s : InsertionSet α) : s.insertAll [] = s := rfl
@[simp] theorem insertAll_cons (s : InsertionSet α) (x : α) (xs : List α) :
    s.insertAll (x :: xs) = (s.insert x).insertAll xs := rfl
@[simp] theorem insertAll_append (s : InsertionSet α) (xs ys : List α) :
    s.insertAll (xs ++ ys) = (s.insertAll xs).insertAll ys := List.foldl_append

end InsertionSet
end FlowLog
