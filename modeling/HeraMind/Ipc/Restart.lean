/-
# Starting an extension again

One `IsolatedExtension` object (`crates/heramind-core/src/extension/isolated/process.rs`) starts
one process after the other.  Its `process` mutex is held by `start`, by `stop` and by whoever
kills; `running` and the request tracker are shared with the receiver threads of all its
processes, and a receiver thread clears the flag and cancels all requests at its exit, whichever
process they belong to by then.

A `start` that fails on a bad reply kills the process; one that cannot send, waits in vain or
finds its channel closed returns and leaves the process in place.
-/
import HeraMind.Ipc.InFlight
import HeraMind.Ipc.Messages

namespace HeraMind.Ipc

open List Option
open Transition

/-! ## The object -/

/-- The channel of the shutdown signal. -/
inductive Shutdown : Type where
  | empty
  | sent
  | disconnected
  deriving DecidableEq

/-- Where a receiver thread is. -/
inductive ThreadPc : Type where
  | top
  | reading
  /-- `complete` has taken the sender of a request. -/
  | routed (k : ℕ)
  /-- It has left its loop, and is to cancel the pending requests. -/
  | leaving
  | exited
  deriving DecidableEq

/-- The receiver thread of one process. -/
structure Reader where
  pc : ThreadPc
  shutdown : Shutdown
  /-- The number of the requests that were made before the process was there. -/
  firstRequest : ℕ

namespace Reader

def signal (r : Reader) : Reader := { r with shutdown := .sent }

/-- The sender is dropped. -/
def hangUp (r : Reader) : Reader :=
  match r.shutdown with
  | .empty => { r with shutdown := .disconnected }
  | _ => r

/-- The thread will not read again, and so not clear `running`. -/
def isPast (r : Reader) : Bool :=
  match r.pc with
  | .top => decide (r.shutdown ≠ .empty)
  | .leaving | .exited => true
  | _ => false

end Reader

/-- What a receiver thread gets when it reads. -/
inductive Incoming (Value : Type) : Type where
  | response (response : IpcResponse Value)
  /-- A response that was drained or could not be parsed. -/
  | skipped
  | lengthFailed
  | payloadFailed
  | drainFailed
  deriving DecidableEq

/-- How `start` fails. -/
inductive StartError : Type where
  | alreadyRunning
  /-- There is no process: no runner, a bad path, or `spawn` fails. -/
  | spawnFailed
  | sendFailed
  | timeout
  | channelClosed
  | errorReply
  | wrongReply
  deriving DecidableEq

/-- Why a process is done away with. -/
inductive CloseReason : Type where
  | killed
  | stopped
  /-- `start` has got a reply that is not `Ready`. -/
  | errorReply
  | wrongReply
  deriving DecidableEq

/-- What `kill_internal` and the end of `stop` do one after the other. -/
inductive CloseStep : Type where
  | signal
  | child
  | running
  | requests
  deriving DecidableEq

/-- Who holds the `process` mutex, and where it is. -/
inductive ProcessHolder : Type where
  | starting
  | launched
  | sendingInit (k : ℕ)
  | awaitingReady (k : ℕ)
  | sendingShutdown (k : ℕ)
  | awaitingAck (k : ℕ)
  | closing (step : CloseStep) (reason : CloseReason)
  deriving DecidableEq

/-- `IsolatedExtension`: what `start`, `stop`, the kills and the receiver threads share.  Processes
are numbered in the order in which they were started. -/
structure IsolatedExtension (Value : Type) where
  process : Option ℕ
  holder : Option ProcessHolder
  running : Bool
  shutdownTx : Option ℕ
  inFlight : InFlightRequests (IpcResponse Value)
  readers : List Reader

namespace IsolatedExtension

variable {Value : Type}

def new : IsolatedExtension Value where
  process := none
  holder := none
  running := false
  shutdownTx := none
  inFlight := .new
  readers := []

/-- What can happen next: `start` takes the mutex and goes on (it spawns a process or not,
registers, sends, gets its channel filled or closed, or waits too long), `stop` or a kill takes
it and goes on, `mark_stopping` is called, another method registers or cancels a request, or
the receiver thread of some process goes on. -/
inductive Label (Value : Type) : Type where
  | start
  | spawnFailed
  | launch
  | register
  | send (ok : Bool)
  | wake
  | timeout
  | stop
  | kill
  | close
  | markStopping
  | request
  | cancel (id : ℕ)
  | advance (i : ℕ)
  | read (i : ℕ) (incoming : Incoming Value)
  deriving DecidableEq

section Step

variable (s : IsolatedExtension Value)

/-- The mutex changes hands, or its holder goes on. -/
def hold (holder : Option ProcessHolder) : IsolatedExtension Value := { s with holder := holder }

/-- The state of the channel of a request. -/
def channel (k : ℕ) : Option (ChannelState (IpcResponse Value)) :=
  s.inFlight.channels[k]?.map Oneshot.state

def setReader (i : ℕ) (f : Reader → Reader) : IsolatedExtension Value :=
  { s with readers := s.readers.modify i f }

/-- The process is there, with its receiver thread.  Nobody can tell the assignments apart. -/
def launch : IsolatedExtension Value where
  process := some s.readers.length
  holder := some .launched
  running := true
  shutdownTx := some s.readers.length
  inFlight := s.inFlight
  readers :=
    (match s.shutdownTx with
    | some g => s.readers.modify g Reader.hangUp
    | none => s.readers) ++ [⟨.top, .empty, s.inFlight.channels.length⟩]

/-- A handshake registers its request, which has the id 0. -/
def handshake (holder : ℕ → ProcessHolder) : IsolatedExtension Value :=
  { s with
    inFlight := s.inFlight.registerWithId 0
    holder := some (holder s.inFlight.channels.length) }

/-- `wait_with_timeout` gives up. -/
def giveUp (holder : Option ProcessHolder) : IsolatedExtension Value :=
  { s with inFlight := s.inFlight.cancel 0, holder := holder }

/-- `start` has got a reply. -/
def replied : IpcResponse Value → IsolatedExtension Value
  | .ready _ => s.hold none
  | .error _ _ _ => s.hold (some (.closing .signal .errorReply))
  | _ => s.hold (some (.closing .signal .wrongReply))

/-- The caller that waits for a handshake finds its channel filled or closed. -/
def wake : Option (IsolatedExtension Value) :=
  match s.holder with
  | some (.awaitingReady k) =>
    match s.channel k with
    | some (.filled response) => some (s.replied response)
    | some .closed => some (s.giveUp none)
    | _ => none
  | some (.awaitingAck k) =>
    match s.channel k with
    | some (.filled _) => some (s.hold (some (.closing .signal .stopped)))
    | some .closed => some (s.giveUp (some (.closing .signal .stopped)))
    | _ => none
  | _ => none

/-- The channel of a request is neither filled nor closed. -/
def isUnanswered (k : ℕ) : Bool :=
  match s.channel k with
  | some .empty | some (.taken _) => true
  | _ => false

def timeout : Option (IsolatedExtension Value) :=
  match s.holder with
  | some (.awaitingReady k) => if s.isUnanswered k then some (s.giveUp none) else none
  | some (.awaitingAck k) =>
    if s.isUnanswered k then some (s.giveUp (some (.closing .signal .stopped))) else none
  | _ => none

/-- A process is done away with, step by step. -/
def close : Option (IsolatedExtension Value) :=
  match s.holder with
  | some (.closing .signal reason) =>
    let t := s.hold (some (.closing .child reason))
    match s.shutdownTx with
    | some g => some { t.setReader g Reader.signal with shutdownTx := none }
    | none => some t
  | some (.closing .child reason) =>
    some { s.hold (some (.closing .running reason)) with process := none }
  | some (.closing .running reason) =>
    some { s.hold (some (.closing .requests reason)) with running := false }
  | some (.closing .requests _) =>
    some { s.hold none with inFlight := s.inFlight.cancelAll }
  | _ => none

/-- A receiver thread goes on where it does not read. -/
def advance (i : ℕ) : Option (IsolatedExtension Value) :=
  match s.readers[i]? with
  | some ⟨.top, .empty, _⟩ => some (s.setReader i fun r => { r with pc := .reading })
  | some ⟨.top, .sent, _⟩ | some ⟨.top, .disconnected, _⟩ =>
    some (s.setReader i fun r => { r with pc := .leaving })
  | some ⟨.routed k, _, _⟩ =>
    some { s.setReader i fun r => { r with pc := .top } with inFlight := s.inFlight.deliver k }
  | some ⟨.leaving, _, _⟩ =>
    some { s.setReader i fun r => { r with pc := .exited } with inFlight := s.inFlight.cancelAll }
  | _ => none

/-- A response is routed to the caller that waits for it, if there is one. -/
def route (i id : ℕ) (response : IpcResponse Value) : IsolatedExtension Value :=
  match s.inFlight.pending.lookup id with
  | some k => { s.setReader i fun r => { r with pc := .routed k } with
      inFlight := s.inFlight.complete id response }
  | none => s.setReader i fun r => { r with pc := .top }

/-- What a receiver thread does with what it has read. -/
def receive (i : ℕ) : Incoming Value → IsolatedExtension Value
  | .response response =>
    match response.routeId with
    | some id => s.route i id response
    | none => s.setReader i fun r => { r with pc := .top }
  | .skipped => s.setReader i fun r => { r with pc := .top }
  | .lengthFailed | .payloadFailed =>
    { s.setReader i fun r => { r with pc := .leaving } with running := false }
  | .drainFailed => { s.setReader i fun r => { r with pc := .top } with running := false }

/-- One step. -/
def step : Label Value → Option (IsolatedExtension Value)
  | .start =>
    match s.holder, s.process with
    | some _, _ => none
    | none, some _ => some s
    | none, none => some (s.hold (some .starting))
  | .spawnFailed => if s.holder = some .starting then some (s.hold none) else none
  | .launch => if s.holder = some .starting then some s.launch else none
  | .register =>
    if s.holder = some .launched then some (s.handshake .sendingInit) else none
  | .send ok =>
    match s.holder with
    | some (.sendingInit k) => some (s.hold (if ok then some (.awaitingReady k) else none))
    | some (.sendingShutdown k) => some (s.hold (some (.awaitingAck k)))
    | _ => none
  | .wake => s.wake
  | .timeout => s.timeout
  | .stop =>
    match s.holder, s.process with
    | some _, _ => none
    | none, some _ => some (s.handshake .sendingShutdown)
    | none, none => some s
  | .kill => if s.holder = none then some (s.hold (some (.closing .signal .killed))) else none
  | .close => s.close
  | .markStopping => some { s with running := false }
  | .request => some { s with inFlight := s.inFlight.register }
  | .cancel id => some { s with inFlight := s.inFlight.cancel id }
  | .advance i => s.advance i
  | .read i incoming =>
    match s.readers[i]? with
    | some ⟨.reading, _, _⟩ => some (s.receive i incoming)
    | _ => none

end Step

/-! ## The claim -/

section Claim

variable (s : IsolatedExtension Value)

/-- The error with which a step ends a call of `start`. -/
def startError : Label Value → Option StartError
  | .start => if s.process.isSome then some .alreadyRunning else none
  | .spawnFailed => some .spawnFailed
  | .send false =>
    match s.holder with
    | some (.sendingInit _) => some .sendFailed
    | _ => none
  | .wake =>
    match s.holder with
    | some (.awaitingReady k) =>
      match s.channel k with
      | some .closed => some .channelClosed
      | _ => none
    | _ => none
  | .timeout =>
    match s.holder with
    | some (.awaitingReady _) => some .timeout
    | _ => none
  | .close =>
    match s.holder with
    | some (.closing .requests .errorReply) => some .errorReply
    | some (.closing .requests .wrongReply) => some .wrongReply
    | _ => none
  | _ => none

/-- There is no trace of the process that was to be started, and `start` can be called again. -/
structure Cleared : Prop where
  process : s.process = none
  running : s.running = false
  pending : s.inFlight.pendingCount = 0
  retry : s.step .start = some (s.hold (some .starting))

/-- Where a call of `start` fails, it leaves the object as it found it. -/
def StartAtomic (a : Label Value) : Prop :=
  ∀ s' error, s.step a = some s' → s.startError a = some error →
    match error with
    | .alreadyRunning => s' = s
    | .spawnFailed => s'.process = none ∧ s'.running = false ∧ s'.inFlight = s.inFlight
    | _ => s'.Cleared

/-- The receiver thread that takes a step. -/
def Label.reader : Label Value → Option ℕ
  | .advance i | .read i _ => some i
  | _ => none

/-- Where the receiver thread of a process goes on after the next process is there, it neither
clears `running` nor closes the channel of a request that was made since. -/
def ReaderHarmless (a : Label Value) : Prop :=
  ∀ s' i next, s.step a = some s' → a.reader = some i → s.readers[i + 1]? = some next →
    s'.running = s.running ∧
    ∀ k id, next.firstRequest ≤ k → s.inFlight.channels[k]? = some ⟨id, .empty⟩ →
      s'.inFlight.channels[k]? ≠ some ⟨id, .closed⟩

/-- After the process is there, `start` fails on a bad reply only. -/
def failsOnReply (a : Label Value) : Bool :=
  match s.startError a with
  | some .sendFailed | some .timeout | some .channelClosed => false
  | _ => true

/-- A process is started only after the receiver threads of those before it will read no more,
and a request is made only after they have exited. -/
def inTurn : Label Value → Bool
  | .launch => s.readers.all Reader.isPast
  | .register => s.readers.dropLast.all fun r => r.pc = .exited
  | .stop => s.process.isNone || s.readers.dropLast.all fun r => r.pc = .exited
  | .request => s.readers.dropLast.all fun r => r.pc = .exited
  | _ => true

end Claim

/-! ## The holder of the mutex -/

section Steps

variable {s s' : IsolatedExtension Value} {a : Label Value} {i k : ℕ}
  {tr : List (IsolatedExtension Value × Label Value)}

/-- What the phase of the holder says about the process. -/
def Held (s : IsolatedExtension Value) : Prop :=
  match s.holder with
  | none => s.process = none → s.running = false
  | some .starting => s.process = none ∧ s.running = false
  | some (.closing .running _) => s.process = none
  | some (.closing .requests _) => s.process = none ∧ s.running = false
  | some (.closing _ _) => True
  | some _ => s.process ≠ none

/-- The process is the same, and `running` has not been set. -/
theorem Held.of_eq (h : s.Held) (hholder : s'.holder = s.holder) (hprocess : s'.process = s.process)
    (hrunning : s.running = false → s'.running = false) : s'.Held := by
  unfold Held at *
  rw [hholder, hprocess]
  split at h
  · exact fun hnone => hrunning (h hnone)
  · exact ⟨h.1, hrunning h.2⟩
  · exact h
  · exact ⟨h.1, hrunning h.2⟩
  · exact h
  · exact h

/-- What the step of a receiver thread leaves as it was. -/
structure ReaderFrame (s : IsolatedExtension Value) (i : ℕ) (s' : IsolatedExtension Value) :
    Prop where
  process : s'.process = s.process
  holder : s'.holder = s.holder
  running : s.running = false → s'.running = false
  length : s'.inFlight.channels.length = s.inFlight.channels.length

theorem readerFrame_advance (h : s.advance i = some s') : ReaderFrame s i s' := by
  unfold advance at h
  split at h <;> cases h
  · exact ⟨rfl, rfl, id, rfl⟩
  · exact ⟨rfl, rfl, id, rfl⟩
  · exact ⟨rfl, rfl, id, rfl⟩
  · exact ⟨rfl, rfl, id, InFlightRequests.length_deliver _ _⟩
  · exact ⟨rfl, rfl, id, InFlightRequests.length_cancelAll _⟩

theorem readerFrame_route {id : ℕ} (response : IpcResponse Value) :
    ReaderFrame s i (s.route i id response) := by
  unfold route
  split
  · exact ⟨rfl, rfl, fun h => h, InFlightRequests.length_complete _ _ _⟩
  · exact ⟨rfl, rfl, fun h => h, rfl⟩

theorem readerFrame_receive (incoming : Incoming Value) :
    ReaderFrame s i (s.receive i incoming) := by
  cases incoming with
  | response response =>
    simp only [receive]
    cases response.routeId with
    | some id => exact readerFrame_route response
    | none => exact ⟨rfl, rfl, id, rfl⟩
  | skipped => exact ⟨rfl, rfl, id, rfl⟩
  | lengthFailed | payloadFailed | drainFailed => exact ⟨rfl, rfl, fun _ => rfl, rfl⟩

theorem readerFrame_step (h : s.step a = some s') (ha : a.reader = some i) :
    ReaderFrame s i s' := by
  cases a with
  | advance j =>
    cases ha
    exact readerFrame_advance h
  | read j incoming =>
    cases ha
    simp only [step] at h
    split at h
    · cases h
      exact readerFrame_receive incoming
    · cases h
  | _ => cases ha

theorem held_wake (hheld : s.Held) (h : s.wake = some s') : s'.Held := by
  unfold wake at h
  unfold Held at hheld
  split at h
  · rename_i hholder
    rw [hholder] at hheld
    split at h <;> cases h
    · unfold replied
      split
      · exact fun hnone => absurd hnone hheld
      · trivial
      · trivial
    · exact fun hnone => absurd hnone hheld
  · split at h <;> cases h
    · trivial
    · trivial
  · cases h

theorem held_timeout (hheld : s.Held) (h : s.timeout = some s') : s'.Held := by
  unfold timeout at h
  unfold Held at hheld
  split at h
  · rename_i hholder
    rw [hholder] at hheld
    split at h <;> cases h
    exact fun hnone => absurd hnone hheld
  · split at h <;> cases h
    trivial
  · cases h

theorem held_close (hheld : s.Held) (h : s.close = some s') : s'.Held := by
  unfold close at h
  unfold Held at hheld
  split at h
  · split at h <;> cases h
    · trivial
    · trivial
  · cases h
    rfl
  · rename_i hholder
    rw [hholder] at hheld
    cases h
    exact ⟨hheld, rfl⟩
  · rename_i hholder
    rw [hholder] at hheld
    cases h
    exact fun _ => hheld.2
  · cases h

/-- The step lemma for the holder of the mutex. -/
theorem held_step (hheld : s.Held) (h : s.step a = some s') : s'.Held := by
  cases ha : a.reader with
  | some i =>
    have hframe := readerFrame_step h ha
    exact hheld.of_eq hframe.holder hframe.process hframe.running
  | none =>
    cases a with
    | start =>
      simp only [step] at h
      split at h <;> cases h
      · exact hheld
      · rename_i hholder hprocess
        unfold Held at hheld
        rw [hholder] at hheld
        exact ⟨hprocess, hheld hprocess⟩
    | spawnFailed =>
      simp only [step] at h
      split at h <;> cases h
      rename_i hholder
      unfold Held at hheld
      rw [hholder] at hheld
      exact fun _ => hheld.2
    | launch =>
      simp only [step] at h
      split at h <;> cases h
      exact some_ne_none _
    | register =>
      simp only [step] at h
      split at h <;> cases h
      rename_i hholder
      unfold Held at hheld
      rw [hholder] at hheld
      exact hheld
    | send ok =>
      simp only [step] at h
      split at h
      · rename_i hholder
        unfold Held at hheld
        rw [hholder] at hheld
        cases h
        cases ok with
        | true => exact hheld
        | false => exact fun hnone => absurd hnone hheld
      · rename_i hholder
        unfold Held at hheld
        rw [hholder] at hheld
        cases h
        exact hheld
      · cases h
    | wake => exact held_wake hheld h
    | timeout => exact held_timeout hheld h
    | stop =>
      simp only [step] at h
      split at h <;> cases h
      · rename_i hprocess
        show s.process ≠ none
        rw [hprocess]
        exact some_ne_none _
      · exact hheld
    | kill =>
      simp only [step] at h
      split at h <;> cases h
      trivial
    | close => exact held_close hheld h
    | markStopping =>
      cases h
      exact hheld.of_eq rfl rfl fun _ => rfl
    | request | cancel id =>
      cases h
      exact hheld.of_eq rfl rfl fun hrunning => hrunning
    | advance j | read j incoming => cases ha

/-- The run lemma. -/
theorem held_of_run (hrun : Run step new tr s) : s.Held :=
  hrun.invariant' (I := Held) (fun _ => rfl) fun _ _ _ hheld hs => held_step hheld hs

/-! ## Failed starts -/

theorem pendingCount_cancelAll {Response : Type} (t : InFlightRequests Response) :
    t.cancelAll.pendingCount = 0 := rfl

/-- The bad reply: `kill_internal` has done its work. -/
theorem cleared_close {reason : CloseReason} (hheld : s.Held)
    (hholder : s.holder = some (.closing .requests reason)) (h : s.close = some s') : s'.Cleared := by
  simp only [close, hholder] at h
  cases h
  unfold Held at hheld
  rw [hholder] at hheld
  refine ⟨hheld.1, hheld.2, pendingCount_cancelAll _, ?_⟩
  simp only [step, hold, hheld.1]

/-- Before a reply there is a process, and it stays. -/
theorem not_cleared_of_send (hheld : s.Held) (hholder : s.holder = some (.sendingInit k))
    (h : s.step (.send false) = some s') : ¬ s'.Cleared := by
  intro hcleared
  simp only [step, hholder] at h
  cases h
  unfold Held at hheld
  rw [hholder] at hheld
  exact hheld hcleared.process

theorem not_cleared_of_timeout (hheld : s.Held) (hholder : s.holder = some (.awaitingReady k))
    (h : s.timeout = some s') : ¬ s'.Cleared := by
  intro hcleared
  simp only [timeout, hholder] at h
  split at h <;> cases h
  unfold Held at hheld
  rw [hholder] at hheld
  exact hheld hcleared.process

theorem not_cleared_of_wake (hheld : s.Held) (hholder : s.holder = some (.awaitingReady k))
    (hclosed : s.channel k = some .closed) (h : s.wake = some s') : ¬ s'.Cleared := by
  intro hcleared
  simp only [wake, hholder, hclosed] at h
  cases h
  unfold Held at hheld
  rw [hholder] at hheld
  exact hheld hcleared.process

/-- A step that ends a call of `start` leaves nothing behind if and only if the call fails on a
bad reply, or before the process is there. -/
theorem startAtomic_iff (hheld : s.Held) (h : s.step a = some s') :
    s.StartAtomic a ↔ s.failsOnReply a = true := by
  have hcase : ∀ error, s.startError a = some error → (s.StartAtomic a ↔
      match error with
      | .alreadyRunning => s' = s
      | .spawnFailed => s'.process = none ∧ s'.running = false ∧ s'.inFlight = s.inFlight
      | _ => s'.Cleared) := by
    intro error herror
    constructor
    · intro hatomic
      exact hatomic s' error h herror
    · intro hmatch t error' ht herror'
      rw [h] at ht
      rw [herror] at herror'
      cases ht
      cases herror'
      exact hmatch
  cases herror : s.startError a with
  | none =>
    refine iff_of_true (fun t error ht herror' => ?_) (by simp [failsOnReply, herror])
    rw [herror] at herror'
    cases herror'
  | some error =>
    rw [hcase error herror]
    cases a with
    | start =>
      simp only [startError] at herror
      split at herror <;> cases herror
      rename_i hprocess
      refine iff_of_true ?_ (by simp [failsOnReply, startError, hprocess])
      obtain ⟨g, hg⟩ := isSome_iff_exists.mp hprocess
      simp only [step, hg] at h
      split at h <;> cases h
      · rfl
      · simp_all
    | spawnFailed =>
      cases herror
      refine iff_of_true ?_ (by simp [failsOnReply, startError])
      simp only [step] at h
      split at h <;> cases h
      rename_i hholder
      unfold Held at hheld
      rw [hholder] at hheld
      exact ⟨hheld.1, hheld.2, rfl⟩
    | send ok =>
      cases ok with
      | true => cases herror
      | false =>
        simp only [startError] at herror
        split at herror <;> cases herror
        rename_i k hholder
        exact iff_of_false (not_cleared_of_send hheld hholder h)
          (by simp [failsOnReply, startError, hholder])
    | wake =>
      simp only [startError] at herror
      split at herror
      · rename_i k hholder
        split at herror <;> cases herror
        rename_i hclosed
        exact iff_of_false (not_cleared_of_wake hheld hholder hclosed h)
          (by simp [failsOnReply, startError, hholder, hclosed])
      · cases herror
    | timeout =>
      simp only [startError] at herror
      split at herror <;> cases herror
      rename_i k hholder
      exact iff_of_false (not_cleared_of_timeout hheld hholder h)
        (by simp [failsOnReply, startError, hholder])
    | close =>
      simp only [startError] at herror
      split at herror <;> cases herror
      · rename_i hholder
        exact iff_of_true (cleared_close hheld hholder h)
          (by simp [failsOnReply, startError, hholder])
      · rename_i hholder
        exact iff_of_true (cleared_close hheld hholder h)
          (by simp [failsOnReply, startError, hholder])
    | _ => cases herror

/-! ## Receiver threads of earlier processes -/

/-- The receiver threads of all processes but the last will read no more, and while they have
not exited no request has been made since the next process. -/
def InTurn (s : IsolatedExtension Value) : Prop :=
  ∀ i r next, s.readers[i]? = some r → s.readers[i + 1]? = some next →
    r.isPast = true ∧ (r.pc = .exited ∨ s.inFlight.channels.length ≤ next.firstRequest)

/-- One receiver thread changes, and no request is made. -/
theorem InTurn.modify {f : Reader → Reader} (h : s.InTurn)
    (hreaders : s'.readers = s.readers.modify i f)
    (hlength : s'.inFlight.channels.length = s.inFlight.channels.length)
    (hfirst : ∀ r, (f r).firstRequest = r.firstRequest)
    (hpast : ∀ r, s.readers[i]? = some r → r.isPast = true →
      (f r).isPast = true ∧ (r.pc = .exited → (f r).pc = .exited)) : s'.InTurn := by
  have hget : ∀ j r, s'.readers[j]? = some r →
      ∃ old, s.readers[j]? = some old ∧ r = if i = j then f old else old := by
    intro j r hr
    rw [hreaders, getElem?_modify, Option.map_eq_map, map_eq_some_iff] at hr
    obtain ⟨old, hold, rfl⟩ := hr
    exact ⟨old, hold, by split <;> rfl⟩
  intro j r next hr hnext
  obtain ⟨old, hold, rfl⟩ := hget j r hr
  obtain ⟨oldNext, holdNext, rfl⟩ := hget (j + 1) next hnext
  obtain ⟨hispast, hexited⟩ := h j old oldNext hold holdNext
  have hsame : (if i = j + 1 then f oldNext else oldNext).firstRequest = oldNext.firstRequest := by
    split
    · exact hfirst oldNext
    · rfl
  rw [hlength, hsame]
  split
  · rename_i hij
    subst hij
    obtain ⟨hispast', hexited'⟩ := hpast old hold hispast
    exact ⟨hispast', hexited.imp_left hexited'⟩
  · exact ⟨hispast, hexited⟩

theorem InTurn.of_eq (h : s.InTurn) (hreaders : s'.readers = s.readers)
    (hlength : s'.inFlight.channels.length = s.inFlight.channels.length) : s'.InTurn := by
  unfold InTurn
  rw [hreaders, hlength]
  exact h

/-- Requests are made while only the last receiver thread is there. -/
theorem InTurn.grow (h : s.InTurn) (hreaders : s'.readers = s.readers)
    (hexited : (s.readers.dropLast.all fun r => r.pc = .exited) = true) : s'.InTurn := by
  intro i r next hr hnext
  rw [hreaders] at hr hnext
  refine ⟨(h i r next hr hnext).1, Or.inl ?_⟩
  have hlt := (List.getElem?_eq_some_iff.mp hnext).1
  have hmem : r ∈ s.readers.dropLast := by
    apply mem_of_getElem? (i := i)
    rw [getElem?_dropLast, if_pos (by omega), hr]
  exact of_decide_eq_true (all_eq_true.mp hexited r hmem)

theorem isPast_hangUp {r : Reader} (h : r.isPast = true) : r.hangUp.isPast = true := by
  unfold Reader.hangUp
  split
  · unfold Reader.isPast at *
    split at h <;> simp_all
  · exact h

theorem isPast_signal {r : Reader} (h : r.isPast = true) : r.signal.isPast = true := by
  unfold Reader.signal Reader.isPast at *
  split at h <;> simp_all

@[simp] theorem pc_hangUp (r : Reader) : r.hangUp.pc = r.pc := by
  unfold Reader.hangUp
  split <;> rfl

@[simp] theorem firstRequest_hangUp (r : Reader) : r.hangUp.firstRequest = r.firstRequest := by
  unfold Reader.hangUp
  split <;> rfl

/-- A new process, when all receiver threads will read no more. -/
theorem inTurn_launch (h : s.InTurn) (hpast : s.readers.all Reader.isPast = true) :
    s.launch.InTurn := by
  -- the threads that are there, the channel of one of which may have lost its sender
  have hold : ∃ old : IsolatedExtension Value, old.InTurn ∧ old.inFlight = s.inFlight ∧
      (∀ r ∈ old.readers, r.isPast = true) ∧
      s.launch.readers = old.readers ++ [⟨.top, .empty, s.inFlight.channels.length⟩] := by
    have hall := all_eq_true.mp hpast
    cases htx : s.shutdownTx with
    | none => exact ⟨s, h, rfl, hall, by simp [launch, htx]⟩
    | some g =>
      refine ⟨s.setReader g Reader.hangUp, ?_, rfl, ?_, by simp [launch, htx, setReader]⟩
      · exact h.modify rfl rfl firstRequest_hangUp fun r _ hr =>
          ⟨isPast_hangUp hr, fun hexited => by rw [pc_hangUp, hexited]⟩
      · intro r hr
        obtain ⟨j, hj⟩ := getElem?_of_mem hr
        rw [show (s.setReader g Reader.hangUp).readers = s.readers.modify g Reader.hangUp from rfl,
          getElem?_modify, Option.map_eq_map, map_eq_some_iff] at hj
        obtain ⟨before, hbefore, rfl⟩ := hj
        have hispast := hall before (mem_of_getElem? hbefore)
        split
        · exact isPast_hangUp hispast
        · exact hispast
  obtain ⟨old, hinturn, hinflight, hall, hreaders⟩ := hold
  intro i r next hr hnext
  rw [hreaders] at hr hnext
  have hlt : i + 1 < old.readers.length + 1 := by
    have := (List.getElem?_eq_some_iff.mp hnext).1
    simpa using this
  rw [getElem?_append_left (by omega)] at hr
  by_cases hlast : i + 1 < old.readers.length
  · rw [getElem?_append_left hlast] at hnext
    obtain ⟨hispast, hexited⟩ := hinturn i r next hr hnext
    rw [hinflight] at hexited
    exact ⟨hispast, hexited⟩
  · rw [getElem?_append_right (by omega), show i + 1 - old.readers.length = 0 by omega] at hnext
    cases hnext
    exact ⟨hall r (mem_of_getElem? hr), Or.inr (Nat.le_refl _)⟩

theorem inTurn_advance (h : s.InTurn) (hs : s.advance i = some s') : s'.InTurn := by
  have hlength := (readerFrame_advance hs).length
  unfold advance at hs
  split at hs <;> cases hs
  · rename_i first hr
    refine h.modify rfl hlength (fun _ => rfl) fun r hr' hpast => ?_
    rw [hr] at hr'
    cases hr'
    cases hpast
  · exact h.modify rfl hlength (fun _ => rfl) fun r hr' hpast =>
      ⟨rfl, fun hexited => by simp_all⟩
  · exact h.modify rfl hlength (fun _ => rfl) fun r hr' hpast =>
      ⟨rfl, fun hexited => by simp_all⟩
  · rename_i k shutdown first hr
    refine h.modify rfl hlength (fun _ => rfl) fun r hr' hpast => ?_
    rw [hr] at hr'
    cases hr'
    cases hpast
  · exact h.modify rfl hlength (fun _ => rfl) fun r _ _ => ⟨rfl, fun _ => rfl⟩

theorem receive_readers (incoming : Incoming Value) :
    ∃ f : Reader → Reader, (s.receive i incoming).readers = s.readers.modify i f ∧
      ∀ r, (f r).firstRequest = r.firstRequest := by
  cases incoming with
  | response response =>
    simp only [receive]
    cases response.routeId with
    | some id =>
      show ∃ f : Reader → Reader, (s.route i id response).readers = _ ∧ _
      unfold route
      split
      · exact ⟨_, rfl, fun _ => rfl⟩
      · exact ⟨_, rfl, fun _ => rfl⟩
    | none => exact ⟨_, rfl, fun _ => rfl⟩
  | skipped | lengthFailed | payloadFailed | drainFailed => exact ⟨_, rfl, fun _ => rfl⟩

/-- The steps that make no request and start no process, and are not those of a receiver. -/
theorem inTurn_close (h : s.InTurn) (hs : s.close = some s') : s'.InTurn := by
  unfold close at hs
  split at hs
  · split at hs <;> cases hs
    · exact h.modify rfl rfl (fun _ => rfl) fun r _ hr => ⟨isPast_signal hr, fun hexited => hexited⟩
    · exact h.of_eq rfl rfl
  · cases hs
    exact h.of_eq rfl rfl
  · cases hs
    exact h.of_eq rfl rfl
  · cases hs
    exact h.of_eq rfl (InFlightRequests.length_cancelAll _)
  · cases hs

theorem inTurn_giveUp (h : s.InTurn) (holder : Option ProcessHolder) : (s.giveUp holder).InTurn :=
  h.of_eq rfl (InFlightRequests.length_cancel _ _)

theorem inTurn_wake (h : s.InTurn) (hs : s.wake = some s') : s'.InTurn := by
  unfold wake at hs
  split at hs
  · split at hs <;> cases hs
    · unfold replied
      split
      · exact h.of_eq rfl rfl
      · exact h.of_eq rfl rfl
      · exact h.of_eq rfl rfl
    · exact inTurn_giveUp h none
  · split at hs <;> cases hs
    · exact h.of_eq rfl rfl
    · exact inTurn_giveUp h _
  · cases hs

theorem inTurn_timeout (h : s.InTurn) (hs : s.timeout = some s') : s'.InTurn := by
  unfold timeout at hs
  split at hs
  · split at hs <;> cases hs
    exact inTurn_giveUp h none
  · split at hs <;> cases hs
    exact inTurn_giveUp h _
  · cases hs

/-- The step lemma for the receiver threads. -/
theorem inTurn_step (h : s.InTurn) (hturn : s.inTurn a = true) (hs : s.step a = some s') :
    s'.InTurn := by
  cases a with
  | start =>
    simp only [step] at hs
    split at hs <;> cases hs
    · exact h
    · exact h.of_eq rfl rfl
  | spawnFailed =>
    simp only [step] at hs
    split at hs <;> cases hs
    exact h.of_eq rfl rfl
  | launch =>
    simp only [step] at hs
    split at hs <;> cases hs
    exact inTurn_launch h hturn
  | register =>
    simp only [step] at hs
    split at hs <;> cases hs
    exact h.grow rfl hturn
  | send ok =>
    simp only [step] at hs
    split at hs <;> cases hs
    · exact h.of_eq rfl rfl
    · exact h.of_eq rfl rfl
  | wake => exact inTurn_wake h hs
  | timeout => exact inTurn_timeout h hs
  | stop =>
    simp only [step] at hs
    split at hs <;> cases hs
    · rename_i hprocess
      refine h.grow rfl ?_
      simpa [IsolatedExtension.inTurn, hprocess] using hturn
    · exact h
  | kill =>
    simp only [step] at hs
    split at hs <;> cases hs
    exact h.of_eq rfl rfl
  | close => exact inTurn_close h hs
  | markStopping =>
    cases hs
    exact h.of_eq rfl rfl
  | request =>
    cases hs
    exact h.grow rfl hturn
  | cancel id =>
    cases hs
    exact h.of_eq rfl (InFlightRequests.length_cancel _ _)
  | advance i => exact inTurn_advance h hs
  | read i incoming =>
    have hlength := (readerFrame_step hs rfl).length
    simp only [step] at hs
    split at hs
    · rename_i shutdown first hr
      cases hs
      obtain ⟨f, hreaders, hfirst⟩ := receive_readers (s := s) (i := i) incoming
      refine h.modify hreaders hlength hfirst fun r hr' hpast => ?_
      rw [hr] at hr'
      cases hr'
      cases hpast
    · cases hs

/-- Receiver threads of earlier processes that keep out of the way. -/
theorem readerHarmless_of_inTurn (h : s.InTurn) : s.ReaderHarmless a := by
  intro s' i next hs ha hnext
  have hlt : i < s.readers.length := by
    have := (List.getElem?_eq_some_iff.mp hnext).1
    omega
  obtain ⟨hpast, hexited⟩ := h i _ next (getElem?_eq_getElem hlt) hnext
  cases a with
  | advance j =>
    cases ha
    simp only [step, advance] at hs
    split at hs <;> cases hs
    · exact ⟨rfl, fun k id _ hk hclosed => by simp_all [setReader]⟩
    · exact ⟨rfl, fun k id _ hk hclosed => by simp_all [setReader]⟩
    · exact ⟨rfl, fun k id _ hk hclosed => by simp_all [setReader]⟩
    · rename_i k shutdown first hr
      rw [(List.getElem?_eq_some_iff.mp hr).2] at hpast
      cases hpast
    · rename_i shutdown first hr
      rw [(List.getElem?_eq_some_iff.mp hr).2] at hexited
      refine ⟨rfl, fun k id hk hchannel => ?_⟩
      have hlast := (List.getElem?_eq_some_iff.mp hchannel).1
      have hle : s.inFlight.channels.length ≤ next.firstRequest :=
        hexited.resolve_left (by simp)
      omega
  | read j incoming =>
    cases ha
    simp only [step] at hs
    split at hs <;> cases hs
    rename_i shutdown first hr
    rw [(List.getElem?_eq_some_iff.mp hr).2] at hpast
    cases hpast
  | _ => cases ha

theorem within_startAtomic_iff (hrun : Run step new tr s) :
    Within StartAtomic tr ↔ Within (fun s a => s.failsOnReply a = true) tr := by
  have hiff : ∀ e ∈ tr, e.1.StartAtomic e.2 ↔ e.1.failsOnReply e.2 = true := by
    intro e he
    obtain ⟨post, pre, -, hpre⟩ := hrun.upTo he
    obtain ⟨t, ht, -⟩ := hrun.next_of_mem he
    exact startAtomic_iff (held_of_run hpre) ht
  constructor
  · intro h e he
    exact (hiff e he).mp (h e he)
  · intro h e he
    exact (hiff e he).mpr (h e he)

/-- A call of `start` that fails leaves nothing behind if and only if it fails on a bad reply (or
before the process is there); and as long as processes are started and requests made in turn
with the exits of the receiver threads, no receiver thread harms a later process. -/
theorem start_atomic (tr : List (IsolatedExtension Value × Label Value))
    (s : IsolatedExtension Value) (hrun : Run step new tr s) :
    (Within StartAtomic tr ↔ Within (fun s a => s.failsOnReply a = true) tr) ∧
      (Within (fun s a => s.inTurn a = true) tr → Within ReaderHarmless tr) := by
  refine ⟨within_startAtomic_iff hrun, ?_⟩
  intro hturn e he
  obtain ⟨post, pre, rfl, hpre⟩ := hrun.upTo he
  have hwithin := (within_cons.mp (within_append.mp hturn).2).2
  have hinturn : e.1.InTurn := by
    refine hpre.invariant (I := InTurn) hwithin ?_ fun s a s' h ha hs => inTurn_step h ha hs
    intro i r next hr
    cases hr
  exact readerHarmless_of_inTurn hinturn

end Steps

end IsolatedExtension

/-! ## Starts that leave something behind -/

namespace Sample

open IsolatedExtension

/-- The first process starts and is killed, and its receiver thread exits before the second one
starts. -/
def inTurn : List (IsolatedExtension.Label String) :=
  [.start, .launch, .register, .send true, .advance 0, .read 0 (.response (.ready "weather")),
    .advance 0, .wake, .advance 0, .kill, .close, .close, .read 0 .lengthFailed, .close, .close,
    .advance 0, .start, .launch, .register, .send true, .advance 1,
    .read 1 (.response (.error 0 "no camera" .internal)), .advance 1, .wake, .close, .close,
    .close, .close]

/-- The receiver thread of the first process is late. -/
def late : List (IsolatedExtension.Label String) :=
  [.start, .launch, .register, .send true, .advance 0, .read 0 (.response (.ready "weather")),
    .advance 0, .wake, .advance 0, .kill, .close, .close, .close, .close, .start, .launch,
    .register, .send true, .read 0 .lengthFailed, .advance 0, .wake]

/-- The process does not answer. -/
def noReady : List (IsolatedExtension.Label String) :=
  [.start, .launch, .register, .send true, .timeout, .start]

/-- The message does not reach the process. -/
def noInit : List (IsolatedExtension.Label String) :=
  [.start, .launch, .register, .send false, .start]

end Sample

namespace IsolatedExtension

theorem start_atomic_in_turn :
    ∃ (tr : List (IsolatedExtension String × Label String)) (s : IsolatedExtension String),
      Run step new tr s ∧ tr.map Prod.snd = Sample.inTurn.reverse ∧ Within StartAtomic tr ∧
        Within ReaderHarmless tr := by
  obtain ⟨tr, s, hrun, hlabels, hreply, hturn⟩ := exists_run step new Sample.inTurn
    (fun tr s => tr.map Prod.snd = Sample.inTurn.reverse ∧
      Within (fun s a => failsOnReply s a = true) tr ∧ Within (fun s a => inTurn s a = true) tr)
    (by decide)
  obtain ⟨hatomic, hharmless⟩ := start_atomic tr s hrun
  exact ⟨tr, s, hrun, hlabels, hatomic.mpr hreply, hharmless hturn⟩

/-- The receiver thread of an earlier process fails to read a length, and clears `running`. -/
def clearsLate (s : IsolatedExtension String) (a : Label String) : Bool :=
  decide (a = .read 0 .lengthFailed) && s.running && s.readers[1]?.isSome

theorem not_readerHarmless {s s' : IsolatedExtension String} {a : Label String}
    (hlate : s.clearsLate a = true) (hs : s.step a = some s') : ¬ s.ReaderHarmless a := by
  intro hharmless
  simp only [clearsLate, Bool.and_eq_true, decide_eq_true_eq] at hlate
  obtain ⟨⟨rfl, hrunning⟩, hnext⟩ := hlate
  obtain ⟨next, hnext⟩ := isSome_iff_exists.mp hnext
  obtain ⟨hsame, -⟩ := hharmless s' 0 next hs rfl hnext
  simp only [step] at hs
  split at hs <;> cases hs
  rw [hrunning] at hsame
  cases hsame

/-- After a failed `start` the next one is refused, with `running` set; and a receiver thread
clears `running` and cancels the request of the next process. -/
theorem restart_disturbed :
    (∃ (tr : List (IsolatedExtension String × Label String)) (s : IsolatedExtension String),
      Run step new tr s ∧ tr.map Prod.snd = Sample.noReady.reverse ∧ ¬ Within StartAtomic tr ∧
        s.startError .start = some .alreadyRunning ∧ s.running = true) ∧
    (∃ (tr : List (IsolatedExtension String × Label String)) (s : IsolatedExtension String),
      Run step new tr s ∧ tr.map Prod.snd = Sample.noInit.reverse ∧ ¬ Within StartAtomic tr ∧
        s.startError .start = some .alreadyRunning ∧ s.running = true ∧
        s.inFlight.pendingCount = 1) ∧
    ∃ (tr : List (IsolatedExtension String × Label String)) (s : IsolatedExtension String),
      Run step new tr s ∧ tr.map Prod.snd = Sample.late.reverse ∧ ¬ Within ReaderHarmless tr ∧
        s.process = some 1 ∧ s.running = false ∧ s.inFlight.pendingCount = 0 := by
  refine ⟨?_, ?_, ?_⟩
  · obtain ⟨tr, s, hrun, hlabels, hfails, hrest⟩ := exists_run step new Sample.noReady
      (fun tr s => tr.map Prod.snd = Sample.noReady.reverse ∧
        ¬ Within (fun s a => failsOnReply s a = true) tr ∧
        startError s .start = some .alreadyRunning ∧ s.running = true)
      (by decide)
    exact ⟨tr, s, hrun, hlabels, (within_startAtomic_iff hrun).not.mpr hfails, hrest⟩
  · obtain ⟨tr, s, hrun, hlabels, hfails, hrest⟩ := exists_run step new Sample.noInit
      (fun tr s => tr.map Prod.snd = Sample.noInit.reverse ∧
        ¬ Within (fun s a => failsOnReply s a = true) tr ∧
        startError s .start = some .alreadyRunning ∧ s.running = true ∧
        s.inFlight.pendingCount = 1)
      (by decide)
    exact ⟨tr, s, hrun, hlabels, (within_startAtomic_iff hrun).not.mpr hfails, hrest⟩
  · obtain ⟨tr, s, hrun, hlabels, ⟨e, he, hlate⟩, hrest⟩ := exists_run step new Sample.late
      (fun tr s => tr.map Prod.snd = Sample.late.reverse ∧
        (∃ e ∈ tr, clearsLate e.1 e.2 = true) ∧
        s.process = some 1 ∧ s.running = false ∧ s.inFlight.pendingCount = 0)
      (by decide)
    obtain ⟨t, ht, -⟩ := hrun.next_of_mem he
    exact ⟨tr, s, hrun, hlabels, fun h => not_readerHarmless hlate ht (h e he), hrest⟩

end IsolatedExtension

end HeraMind.Ipc
