import FlowLog.Proofs.Reached
import FlowLog.Reconstruction.Engine

/-! Histories of the engine, in which the moves of sender, loop and flag come in any order. What was
sent is at every moment what all reconstructions have processed, followed by the event in the loop's
hands and by the channel. -/

namespace FlowLog

namespace Phase

/-- The event that the loop has taken and not yet applied to all. -/
def held : Phase → List Event
  | acquire e | update e _ => [e]
  | _ => []

/-- How many reconstructions have seen the event in hand. -/
def seen : Phase → Nat
  | update _ k => k
  | _ => 0

def holdsLock : Phase → Bool
  | update .. => true
  | _ => false

end Phase

namespace Engine

/-- The states that moves lead to, with all events sent on the way. -/
inductive History (capacity : Option Nat) (init : Engine) : List Event → Engine → Prop
  | init : History capacity init [] init
  | step {sent new : List Event} {s t : Engine} :
      History capacity init sent s → Step capacity s new t → History capacity init (sent ++ new) t

/-- The state accounts for all events sent to reconstructions that began as `initial`: all have
processed `done`, and a loop that stopped by itself left nothing behind. -/
structure Accounts (initial : List Reconstruction) (sent done : List Event) (s : Engine) : Prop where
  sent : sent = done ++ s.phase.held ++ s.channel
  shared : s.shared = (initial.take s.phase.seen).map (·.processAll (done ++ s.phase.held)) ++
    (initial.drop s.phase.seen).map (·.processAll done)
  drained : s.phase = .stopped → s.running → s.connected = false ∧ s.channel = []

variable {capacity : Option Nat} {init : List Reconstruction} {sent done : List Event} {s : Engine}

theorem turn_running (s : Engine) : s.turn.running = s.running := by
  unfold turn
  (repeat' split) <;> rfl

theorem turn_connected (s : Engine) : s.turn.connected = s.connected := by
  unfold turn
  (repeat' split) <;> rfl

/-- The next reconstruction sees the event in hand. -/
theorem modify_next (initial : List Reconstruction) (done : List Event) (e : Event) (k : Nat) :
    ((initial.take k).map (·.processAll (done ++ [e])) ++
      (initial.drop k).map (·.processAll done)).modify k (·.process e) =
    (initial.take (k + 1)).map (·.processAll (done ++ [e])) ++
      (initial.drop (k + 1)).map (·.processAll done) := by
  induction initial generalizing k with
  | nil => simp
  | cons r rs ih =>
    cases k with
    | zero => simp
    | succ k => simpa using ih k

namespace Accounts

theorem start (running : Bool) (initial : List Reconstruction) :
    (start running initial).Accounts initial [] [] :=
  ⟨rfl, by simp [Engine.start, Phase.seen], by simp [Engine.start]⟩

theorem send (h : s.Accounts init sent done) (hs : s.connected) (e : Event) :
    (s.send e).Accounts init (sent ++ [e]) done where
  sent := by
    rw [h.sent]
    simp [Engine.send]
  shared := h.shared
  drained hstopped hrunning := by
    have hgone := (h.drained hstopped hrunning).1
    rw [hs] at hgone
    contradiction

/-- One turn of the loop takes an event, shows it to the next reconstruction, or is through with it. -/
theorem turn (h : s.Accounts init sent done) : ∃ done, s.turn.Accounts init sent done := by
  have hsent := h.sent
  have hshared := h.shared
  unfold Engine.turn
  cases hphase : s.phase with
  | check =>
    rw [hphase] at hsent hshared
    refine ⟨done, ?_⟩
    cases hrunning : s.running with
    | true => exact ⟨hsent, hshared, by simp⟩
    | false => exact ⟨hsent, hshared, by simp⟩
  | receive =>
    rw [hphase] at hsent hshared
    refine ⟨done, ?_⟩
    cases hchannel : s.channel with
    | nil =>
      rw [hchannel] at hsent
      cases hconnected : s.connected with
      | true => exact ⟨by simpa [hchannel, Phase.held] using hsent, hshared, by simp⟩
      | false => exact ⟨by simpa [hchannel, Phase.held] using hsent, hshared, by simp⟩
    | cons e rest =>
      rw [hchannel] at hsent
      exact ⟨by simpa [Phase.held] using hsent, hshared, by simp⟩
  | acquire e =>
    rw [hphase] at hsent hshared
    exact ⟨done, hsent, hshared, by simp⟩
  | update e k =>
    rw [hphase] at hsent hshared
    simp only [Phase.held, Phase.seen] at hsent hshared
    by_cases hk : k < s.shared.length
    · have hnext := modify_next init done e k
      rw [← hshared] at hnext
      simp only [hk, if_true]
      exact ⟨done, hsent, hnext, by simp⟩
    · -- All have seen the event, so it goes to what is done.
      have hlength : init.length ≤ k := by
        have hsame := congrArg List.length hshared
        simp only [List.length_append, List.length_map, List.length_take, List.length_drop] at hsame
        omega
      rw [List.take_of_length_le hlength, List.drop_of_length_le hlength, List.map_nil,
        List.append_nil] at hshared
      simp only [hk, if_false]
      exact ⟨done ++ [e], by simpa [Phase.held] using hsent, by simpa [Phase.seen] using hshared,
        by simp⟩
  | stopped => exact ⟨done, h⟩

theorem step {new : List Event} {t : Engine} (h : s.Accounts init sent done)
    (hstep : Step capacity s new t) : ∃ done, t.Accounts init (sent ++ new) done := by
  cases hstep with
  | send e hconnected _ => exact ⟨done, h.send hconnected e⟩
  | disconnect =>
    rw [List.append_nil]
    exact ⟨done, h.sent, h.shared, fun hstopped hrunning => ⟨rfl, (h.drained hstopped hrunning).2⟩⟩
  | clear =>
    rw [List.append_nil]
    exact ⟨done, h.sent, h.shared, fun _ hrunning => absurd hrunning Bool.false_ne_true⟩
  | timeout hphase =>
    rw [List.append_nil]
    have hsent := h.sent
    have hshared := h.shared
    rw [hphase] at hsent hshared
    exact ⟨done, hsent, hshared, fun hstopped => by simp [Engine.timeout] at hstopped⟩
  | turn _ =>
    rw [List.append_nil]
    exact h.turn

/-- Without the lock in the loop's hands all reconstructions have processed the same. -/
theorem shared_eq (h : s.Accounts init sent done) (hlock : s.phase.holdsLock = false) :
    s.shared = init.map (·.processAll done) := by
  have hseen : s.phase.seen = 0 := by
    cases hphase : s.phase with
    | update e k => simp [hphase, Phase.holdsLock] at hlock
    | _ => rfl
  have hshared := h.shared
  rwa [hseen, List.take_zero, List.drop_zero, List.map_nil, List.nil_append] at hshared

theorem sent_eq_done (h : s.Accounts init sent done) (hstopped : s.phase = .stopped)
    (hrunning : s.running) : sent = done := by
  have hsent := h.sent
  rw [hstopped, (h.drained hstopped hrunning).2] at hsent
  simpa [Phase.held] using hsent

end Accounts

namespace History

variable {running : Bool} {first : Engine}

theorem send (h : History capacity first sent s) (hconnected : s.connected)
    (hroom : s.hasRoom capacity) (e : Event) : History capacity first (sent ++ [e]) (s.send e) :=
  h.step (.send e hconnected hroom)

theorem quiet {t : Engine} (h : History capacity first sent s) (hstep : Step capacity s [] t) :
    History capacity first sent t := by
  have hnext := h.step hstep
  rwa [List.append_nil] at hnext

theorem turns (h : History capacity first sent s) (n : Nat) :
    History capacity first sent (s.turns n) := by
  induction n generalizing s with
  | zero => exact h
  | succ n ih =>
    refine ih ?_
    by_cases hstopped : s.phase = .stopped
    · -- A stopped loop has no more turns.
      have hsame : s.turn = s := by rw [Engine.turn, hstopped]
      exact hsame.symm ▸ h
    · exact h.quiet (.turn hstopped)

theorem accounts (h : History capacity (start running init) sent s) :
    ∃ done, s.Accounts init sent done := by
  induction h with
  | init => exact ⟨[], .start running init⟩
  | step _ hstep ih =>
    obtain ⟨done, ih⟩ := ih
    exact ih.step hstep

/-- Whenever the lock is free, every reconstruction has processed the same first part of what was
sent. A loop that stopped while its flag was set, so that the flag was never cleared, has processed
all of it, and reconstructions that were new then show what a reconstruction of all events gives. -/
theorem common_prefix (h : History capacity (start running init) sent s) :
    (s.phase.holdsLock = false →
      ∃ done, done <+: sent ∧ s.shared = init.map (·.processAll done)) ∧
    (s.phase = .stopped → s.running →
      s.shared = init.map (·.processAll sent) ∧
      ∀ focuses : List String, init = focuses.map .new →
        (s.shared.map fun r => (r.focus, r.snapshot)) = focuses.map (fun f => (f, reconstruct sent f)) ∧
        (s.shared.map fun r => (r.focus, r.snapshot)) = reconstructMany sent focuses) := by
  obtain ⟨done, hdone⟩ := h.accounts
  refine ⟨fun hlock => ⟨done, ?_, hdone.shared_eq hlock⟩, fun hstopped hrunning => ?_⟩
  · rw [hdone.sent, List.append_assoc]
    exact List.prefix_append _ _
  · have hsent : sent = done := hdone.sent_eq_done hstopped hrunning
    have hshared : s.shared = init.map (·.processAll sent) :=
      hsent ▸ hdone.shared_eq (by rw [hstopped]; rfl)
    refine ⟨hshared, fun focuses hfresh => ?_⟩
    have hresults : (s.shared.map fun r => (r.focus, r.snapshot)) =
        focuses.map fun f => (f, reconstruct sent f) := by
      rw [hshared, hfresh, List.map_map, List.map_map]
      refine List.map_congr_left fun f _ => ?_
      have hreached : Reached f sent ((Reconstruction.new f).processAll sent) :=
        Reached.new.processAll sent
      exact Prod.ext hreached.focus_eq rfl
    exact ⟨hresults, hresults⟩

end History

/-! A loop that waits takes an event through all reconstructions in one round of turns. -/

theorem modify_take_drop {α : Type} (f : α → α) (xs : List α) (k : Nat) (hk : k < xs.length) :
    (xs.modify k f).take (k + 1) ++ ((xs.modify k f).drop (k + 1)).map f =
      xs.take k ++ (xs.drop k).map f := by
  induction xs generalizing k with
  | nil => simp at hk
  | cons x xs ih =>
    cases k with
    | zero => simp
    | succ k => simpa using ih k (Nat.lt_of_succ_lt_succ hk)

theorem turns_update (s : Engine) (e : Event) (k n : Nat) (hphase : s.phase = .update e k)
    (hn : k + n = s.shared.length) :
    s.turns (n + 1) = { s with
      shared := s.shared.take k ++ (s.shared.drop k).map (·.process e)
      phase := .check } := by
  induction n generalizing s k with
  | zero =>
    have hk : ¬k < s.shared.length := by omega
    have hturn : s.turn = { s with phase := .check } := by simp [turn, hphase, hk]
    have hlength : s.shared.length ≤ k := Nat.le_of_not_lt hk
    rw [turns, turns, hturn, List.take_of_length_le hlength, List.drop_of_length_le hlength,
      List.map_nil, List.append_nil]
  | succ n ih =>
    have hk : k < s.shared.length := by omega
    have hturn : s.turn =
        { s with shared := s.shared.modify k (·.process e), phase := .update e (k + 1) } := by
      simp [turn, hphase, hk]
    have hlength : k + 1 + n = (s.shared.modify k (·.process e)).length := by
      rw [List.length_modify]
      omega
    rw [turns, hturn, ih _ (k + 1) rfl hlength]
    simp only [modify_take_drop (·.process e) s.shared k hk]

theorem turns_receive (s : Engine) (e : Event) (rest : List Event) (hphase : s.phase = .receive)
    (hchannel : s.channel = e :: rest) :
    s.turns (s.shared.length + 3) = { s with
      channel := rest
      shared := s.shared.map (·.process e)
      phase := .check } := by
  let t : Engine := { s with channel := rest, phase := .update e 0 }
  have hturns : s.turns 2 = t := by simp [t, turns, turn, hphase, hchannel]
  have hsplit : s.turns (s.shared.length + 3) = (s.turns 2).turns (t.shared.length + 1) := rfl
  rw [hsplit, hturns, turns_update t e 0 t.shared.length rfl (Nat.zero_add _)]
  simp [t]

/-- The loop that waits at an empty channel. -/
def waiting (shared : List Reconstruction) : Engine := ⟨[], true, true, .receive, shared⟩

theorem turn_start (shared : List Reconstruction) : (start true shared).turn = waiting shared := rfl

theorem waiting_hasRoom (capacity : Option Nat) (shared : List Reconstruction) :
    (waiting shared).hasRoom capacity := by
  cases capacity with
  | none => rfl
  | some n => cases n <;> simp [hasRoom, waiting]

theorem turns_waiting_send (shared : List Reconstruction) (e : Event) :
    ((waiting shared).send e).turns (shared.length + 3) = start true (shared.map (·.process e)) :=
  turns_receive ((waiting shared).send e) e [] rfl rfl

theorem deliver_start (shared : List Reconstruction) (e : Event) :
    (start true shared).deliver e = start true (shared.map (·.process e)) := by
  have hphase : (waiting shared).phase ≠ .stopped := by simp [waiting]
  rw [deliver, turn_start]
  exact (if_neg hphase).trans (turns_waiting_send shared e)

theorem foldl_deliver (shared : List Reconstruction) (es : List Event) :
    es.foldl deliver (start true shared) = start true (shared.map (·.processAll es)) := by
  induction es generalizing shared with
  | nil => simp
  | cons e es ih =>
    rw [List.foldl_cons, deliver_start, ih, List.map_map]
    rfl

theorem run_start (initial : List Reconstruction) (es : List Event) :
    (start true initial).run es = ⟨[], false, true, .stopped, initial.map (·.processAll es)⟩ := by
  rw [run, foldl_deliver]
  rfl

namespace History

theorem deliver {first : Engine} {shared : List Reconstruction}
    (h : History capacity first sent (start true shared)) (e : Event) :
    History capacity first (sent ++ [e]) ((start true shared).deliver e) := by
  have hwaiting : History capacity first sent (waiting shared) := h.turns 1
  have hround := (hwaiting.send rfl (waiting_hasRoom capacity shared) e).turns (shared.length + 3)
  rwa [turns_waiting_send, ← deliver_start] at hround

/-- Taking each event before the next one is sent is one history, whatever the capacity. -/
theorem run (capacity : Option Nat) (initial : List Reconstruction) (es : List Event) :
    History capacity (start true initial) es ((start true initial).run es) := by
  have hfold : History capacity (start true initial) es
      (es.foldl Engine.deliver (start true initial)) := by
    induction es using List.reverseRecOn with
    | nil => exact .init
    | append_singleton es e ih =>
      rw [List.foldl_concat, foldl_deliver]
      rw [foldl_deliver] at ih
      exact ih.deliver e
  exact (hfold.quiet .disconnect).turns 2

/-- Two reconstructions behind a channel without room. -/
theorem common_prefix_of_two :
    let base : Base := ⟨1, ⟨0, by decide⟩, "a", "b", none, none⟩
    let es : List Event := [⟨base, .tcpBegin ⟨1000, 80⟩⟩, ⟨base, .tcpData ⟨1000, 80⟩ 7⟩]
    let init : List Reconstruction := ["a", "b"].map .new
    let s := (start true init).run es
    History (some 0) (start true init) es s ∧ s.phase.holdsLock = false ∧
    s.phase = .stopped ∧ s.running ∧
    (∃ done, done <+: es ∧ s.shared = init.map (·.processAll done)) ∧
    s.shared = init.map (·.processAll es) ∧
    (s.shared.map fun r => (r.focus, r.snapshot)) = reconstructMany es ["a", "b"] := by
  intro base es init s
  have h : History (some 0) (start true init) es s := .run (some 0) init es
  have hs : s = ⟨[], false, true, .stopped, init.map (·.processAll es)⟩ := run_start init es
  have hlock : s.phase.holdsLock = false := by rw [hs]; rfl
  have hstopped : s.phase = .stopped := by rw [hs]
  have hrunning : s.running := by rw [hs]
  obtain ⟨hpart, hall⟩ := h.common_prefix
  obtain ⟨hshared, hfresh⟩ := hall hstopped hrunning
  exact ⟨h, hlock, hstopped, hrunning, hpart hlock, hshared, (hfresh ["a", "b"] rfl).2⟩

end History
end Engine
end FlowLog
