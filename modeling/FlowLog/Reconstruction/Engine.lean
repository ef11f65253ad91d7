import FlowLog.Reconstruction

/-! The engine that feeds a channel of events to shared reconstructions. A sender puts events into
the channel and finally drops it. The loop reads the running flag, waits for an event, acquires the
write lock, applies the event to one reconstruction after the other, and begins again; it stops
when the flag is cleared, or when the channel is empty and has lost its sender. -/

namespace FlowLog

/-- Where the loop stands. In `acquire e` it has taken the event `e` and waits for the write lock; in
`update e k` it holds the lock, and the first `k` reconstructions have seen `e`. -/
inductive Phase
  | check
  | receive
  | acquire (e : Event)
  | update (e : Event) (k : Nat)
  | stopped
  deriving DecidableEq, Repr

structure Engine where
  channel : List Event
  connected : Bool
  running : Bool
  phase : Phase
  shared : List Reconstruction
  deriving DecidableEq, Repr

namespace Engine

def start (running : Bool) (shared : List Reconstruction) : Engine :=
  ⟨[], true, running, .check, shared⟩

/-- Whether a channel of the given capacity takes an event now. One without any room hands the
event over to a loop that waits for it. -/
def hasRoom (capacity : Option Nat) (s : Engine) : Bool :=
  match capacity with
  | none => true
  | some 0 => s.phase = .receive && s.channel.isEmpty
  | some n => s.channel.length < n

def send (s : Engine) (e : Event) : Engine := { s with channel := s.channel ++ [e] }

def disconnect (s : Engine) : Engine := { s with connected := false }

def clear (s : Engine) : Engine := { s with running := false }

def timeout (s : Engine) : Engine := { s with phase := .check }

/-- The loop's own next move; waiting on an empty channel ends by timing out. -/
def turn (s : Engine) : Engine :=
  match s.phase with
  | .check => { s with phase := if s.running then .receive else .stopped }
  | .receive =>
    match s.channel with
    | e :: rest => { s with channel := rest, phase := .acquire e }
    | [] => { s with phase := if s.connected then .check else .stopped }
  | .acquire e => { s with phase := .update e 0 }
  | .update e k =>
    if k < s.shared.length then
      { s with shared := s.shared.modify k (·.process e), phase := .update e (k + 1) }
    else { s with phase := .check }
  | .stopped => s

/-- Any move of the whole, with what it puts into the channel: the sender's, the loop's, or the
clearing of the flag. A loop that waits may time out just when an event arrives. -/
inductive Step (capacity : Option Nat) : Engine → List Event → Engine → Prop
  | send {s : Engine} (e : Event) :
      s.connected → s.hasRoom capacity → Step capacity s [e] (s.send e)
  | disconnect {s : Engine} : Step capacity s [] s.disconnect
  | clear {s : Engine} : Step capacity s [] s.clear
  | timeout {s : Engine} : s.phase = .receive → Step capacity s [] s.timeout
  | turn {s : Engine} : s.phase ≠ .stopped → Step capacity s [] s.turn

def turns (s : Engine) : Nat → Engine
  | 0 => s
  | n + 1 => s.turn.turns n

def deliver (s : Engine) (e : Event) : Engine :=
  let s := s.turn
  if s.phase = .stopped then s else (s.send e).turns (s.shared.length + 3)

/-- A run in which each event is taken before the next one is sent, and the channel is then
dropped. It needs no more room than a channel of any capacity has. -/
def run (s : Engine) (es : List Event) : Engine := (es.foldl deliver s).disconnect.turns 2

end Engine
end FlowLog
