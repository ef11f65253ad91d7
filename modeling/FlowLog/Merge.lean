import FlowLog.Event.Encode

/-! Merging of event streams by time. The heads of the streams wait in a queue, by their times and at
the same time by the positions of their streams. The first of the queue is taken and numbered, and
the next event of its stream is put into the queue. -/

namespace FlowLog

structure Waiting where
  time : Timestamp
  stream : Nat
  deriving DecidableEq, Repr

namespace Waiting

def leads (a b : Waiting) : Bool := a.time < b.time || (a.time == b.time && a.stream ≤ b.stream)

def insert (w : Waiting) : List Waiting → List Waiting
  | [] => [w]
  | v :: queue => if w.leads v then w :: v :: queue else v :: insert w queue

/-- The queue with the head of a stream, if the stream has one. -/
def enqueue (stream : Nat) : List Event → List Waiting → List Waiting
  | [], queue => queue
  | e :: _, queue => insert ⟨e.time, stream⟩ queue

def queueFrom (position : Nat) : List (List Event) → List Waiting
  | [] => []
  | es :: streams => enqueue position es (queueFrom (position + 1) streams)

theorem insert_length (w : Waiting) (queue : List Waiting) :
    (insert w queue).length = queue.length + 1 := by
  induction queue with
  | nil => rfl
  | cons v queue ih =>
    rw [insert]
    split <;> simp [ih]

theorem enqueue_length (stream : Nat) (es : List Event) (queue : List Waiting) :
    (enqueue stream es queue).length ≤ queue.length + 1 := by
  cases es with
  | nil => exact Nat.le_succ _
  | cons e es => exact Nat.le_of_eq (insert_length _ queue)

end Waiting

/-- Taking the head of a stream leaves one event less. -/
theorem length_flatten_set {streams : List (List Event)} {i : Nat} {e : Event} {es : List Event}
    (h : streams[i]? = some (e :: es)) :
    streams.flatten.length = (streams.set i es).flatten.length + 1 := by
  induction streams generalizing i with
  | nil => cases h
  | cons s streams ih =>
    cases i with
    | zero =>
      cases h
      simp
    | succ i =>
      simp [ih (i := i) h]
      omega

/-- The events that are not read yet, in the order in which they are taken, numbered from `n + 1`. -/
def mergeFrom (n : Nat) (unread : List (List Event)) : List Waiting → List Event
  | [] => []
  | w :: queue =>
    match h : unread[w.stream]? with
    | some (e :: es) =>
      e.renumber (n + 1).toUInt64 ::
        mergeFrom (n + 1) (unread.set w.stream es) (Waiting.enqueue w.stream es queue)
    | _ => mergeFrom n unread queue
termination_by queue => unread.flatten.length + queue.length
decreasing_by
  · have hunread := length_flatten_set h
    have hqueue := Waiting.enqueue_length w.stream es queue
    simp only [List.length_cons]
    omega
  · simp

def mergeStreams (streams : List (List Event)) : List Event :=
  mergeFrom 0 streams (Waiting.queueFrom 0 streams)

end FlowLog
