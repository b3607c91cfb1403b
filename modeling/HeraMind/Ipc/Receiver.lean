/-
# No silent death

The receiver thread of an extension process (`spawn_receiver_thread`,
`crates/heramind-core/src/extension/isolated/process.rs`) is the one that tells the manager that
the process has died.  It does so in one of its exits only, after it could not read a length;
on a shutdown signal, which `kill_internal` sends before it kills, and after it could not read a
payload, it leaves without a word.  The channel to the manager is set by `load_internal`
(`manager.rs`), and only if a capability provider is configured.

The process here ends by itself or by `kill_internal`; `stop` is not among the steps.
-/
import HeraMind.Lib.ReadExact
import HeraMind.Lib.Run
import HeraMind.Ipc.Frame

namespace HeraMind.Ipc

open Transition BufIO

/-! ## The process and its receiver -/

/-- `IPC_MAX_BUFFER_SIZE`. -/
def ipcMaxBufferSize : ℕ := 10 * 1024 * 1024

/-- The size of the `drain_buf` of the receiver. -/
def receiverChunk : ℕ := 4096

/-- Where the receiver thread is. -/
inductive ReceiverPc : Type where
  | top
  | length
  | payload (len : ℕ)
  | drain (remaining : ℕ)
  /-- A length could not be read. -/
  | notify
  | exited
  deriving DecidableEq

/-- How far the receiver is from its exit. -/
def ReceiverPc.rank : ReceiverPc → ℕ
  | .exited => 0
  | .notify => 1
  | .length => 2
  | .top => 3
  | .payload _ | .drain _ => 4

/-- One process of an extension, with what it has written to its stdout and the receiver has
not read. -/
structure Process where
  stdout : List UInt8
  alive : Bool
  receiver : ReceiverPc
  running : Bool
  /-- `shutdown_tx` has not been taken. -/
  shutdownTx : Bool
  /-- A shutdown signal is in the channel. -/
  shutdown : Bool
  /-- A provider was configured when the extension was loaded. -/
  provider : Bool
  deathTx : Bool
  deathTxLocked : Bool
  /-- The death notifications that were sent. -/
  notified : ℕ

namespace Process

/-- After the process was started.  Only a process that replaces another one finds a `deathTx`. -/
def start (provider deathTx : Bool) : Process where
  stdout := []
  alive := true
  receiver := .top
  running := true
  shutdownTx := true
  shutdown := false
  provider := provider
  deathTx := deathTx
  deathTxLocked := false
  notified := 0

/-- What can happen next: the receiver thread goes on, the process writes or exits,
`kill_internal` sends the shutdown signal or kills, and `set_death_notification` locks or
sets. -/
inductive Label : Type where
  | receive (es : List ReadEvent)
  | write (bytes : List UInt8)
  | exit
  | signal
  | kill
  | lockDeathTx
  | setDeathTx
  deriving DecidableEq

section Step

variable (s : Process)

/-- The receiver has read a length, or not. -/
def afterLength : ReadOutcome UInt8 → Process
  | ⟨.ok bytes, left⟩ => { s with
      stdout := left
      receiver :=
        if ipcMaxBufferSize < fromLeBytes bytes then .drain (fromLeBytes bytes)
        else .payload (fromLeBytes bytes) }
  | ⟨.error _, left⟩ => { s with stdout := left, running := false, receiver := .notify }

/-- The receiver has read a payload, which it routes or cannot parse, or not. -/
def afterPayload : ReadOutcome UInt8 → Process
  | ⟨.ok _, left⟩ => { s with stdout := left, receiver := .top }
  | ⟨.error _, left⟩ => { s with stdout := left, running := false, receiver := .exited }

/-- The receiver has read some bytes that it drops.  After an error it goes on with the next
length all the same. -/
def afterDrain (remaining : ℕ) : ReadOutcome UInt8 → Process
  | ⟨.ok _, left⟩ => { s with
      stdout := left
      receiver :=
        if remaining ≤ receiverChunk then .top else .drain (remaining - receiverChunk) }
  | ⟨.error _, left⟩ => { s with stdout := left, running := false, receiver := .top }

/-- A read of the receiver.  There is no end of the stream while the process lives. -/
def read (r : ReadOutcome UInt8) (after : ReadOutcome UInt8 → Process) : Option Process :=
  if s.alive && r.isEof then none else some (after r)

/-- One step of the receiver thread. -/
def receive (es : List ReadEvent) : Option Process :=
  match s.receiver with
  | .top =>
    if s.shutdown then some { s with shutdown := false, receiver := .exited }
    else some { s with receiver := .length }
  | .length => s.read (readExact es s.stdout 4) s.afterLength
  | .payload len => s.read (readExact es s.stdout len) s.afterPayload
  | .drain remaining =>
    s.read (readExact es s.stdout (min remaining receiverChunk)) (s.afterDrain remaining)
  | .notify => some { s with
      notified := if s.deathTx && !s.deathTxLocked then s.notified + 1 else s.notified
      receiver := .exited }
  | .exited => none

/-- One step. -/
def step : Label → Option Process
  | .receive es => s.receive es
  | .write bytes => if s.alive then some { s with stdout := s.stdout ++ bytes } else none
  | .exit => if s.alive then some { s with alive := false } else none
  | .signal => if s.shutdownTx then some { s with shutdownTx := false, shutdown := true } else none
  | .kill =>
    if s.shutdownTx then none else some { s with alive := false, running := false }
  | .lockDeathTx =>
    if s.provider && !s.deathTxLocked then some { s with deathTxLocked := true } else none
  | .setDeathTx =>
    if s.deathTxLocked then some { s with deathTx := true, deathTxLocked := false } else none

end Step

/-! ## The claim -/

/-- The receiver thread goes on. -/
def Label.isReceive : Label → Bool
  | .receive _ => true
  | _ => false

/-- As many steps as the receiver can still take when the process is dead. -/
def fuel (s : Process) : ℕ := 4 * s.stdout.length + s.receiver.rank

/-- Whatever else happens, the receiver never blocks, and exits after a bounded number of
steps. -/
def Exits (s : Process) : Prop :=
  ∀ post s', Run step s post s' →
    post.countP (fun e => e.2.isReceive) ≤ s.fuel ∧
    (s'.receiver = .exited ∨ ∀ es, (s'.step (.receive es)).isSome = true)

/-- The step of the receiver does not take one of its silent exits: it finds no shutdown signal,
reads every payload whole, and finds the channel to the manager set and not locked. -/
def speaks (s : Process) : Label → Bool
  | .receive es =>
    match s.receiver with
    | .top => !s.shutdown
    | .payload len => (readExact es s.stdout len).result.isOk
    | .notify => s.deathTx && !s.deathTxLocked
    | _ => true
  | _ => true

/-! ## The steps of the receiver -/

section Steps

variable {s s' : Process} {a : Label} {es : List ReadEvent} {tr : List (Process × Label)}
  {r : ReadOutcome UInt8} {after : ReadOutcome UInt8 → Process}

theorem eq_of_read (h : s.read r after = some s') : s' = after r := by
  unfold read at h
  split at h
  · cases h
  · exact (Option.some.inj h).symm

theorem isSome_read (hdead : s.alive = false) : (s.read r after).isSome = true := by
  simp [read, hdead]

/-- The receiver goes on after a length, read or not. -/
theorem receiver_afterLength : (s.afterLength r).receiver ≠ .exited := by
  obtain ⟨result, left⟩ := r
  cases result with
  | ok bytes =>
    show (if _ then _ else _) ≠ ReceiverPc.exited
    split <;> simp
  | error e => simp [afterLength]

variable {remaining : ℕ}

theorem receiver_afterDrain : (s.afterDrain remaining r).receiver ≠ .exited := by
  obtain ⟨result, left⟩ := r
  cases result with
  | ok bytes =>
    show (if _ then _ else _) ≠ ReceiverPc.exited
    split <;> simp
  | error e => simp [afterDrain]

theorem receiver_afterPayload : (s.afterPayload r).receiver = .exited ↔ r.result.isOk = false := by
  obtain ⟨result, left⟩ := r
  cases result with
  | ok payload => exact iff_of_false (by simp [afterPayload]) (by simp [Except.isOk, Except.toBool])
  | error e => exact iff_of_true rfl rfl

@[simp] theorem notified_afterLength : (s.afterLength r).notified = s.notified := by
  unfold afterLength
  split <;> rfl

@[simp] theorem notified_afterPayload : (s.afterPayload r).notified = s.notified := by
  unfold afterPayload
  split <;> rfl

@[simp] theorem notified_afterDrain :
    (s.afterDrain remaining r).notified = s.notified := by
  unfold afterDrain
  split <;> rfl

@[simp] theorem alive_afterLength : (s.afterLength r).alive = s.alive := by
  unfold afterLength
  split <;> rfl

@[simp] theorem alive_afterPayload : (s.afterPayload r).alive = s.alive := by
  unfold afterPayload
  split <;> rfl

@[simp] theorem alive_afterDrain :
    (s.afterDrain remaining r).alive = s.alive := by
  unfold afterDrain
  split <;> rfl

/-- All that a step of the receiver can do. -/
inductive Received (s : Process) (es : List ReadEvent) : Process → Prop
  | shutdown : s.receiver = .top → s.shutdown = true →
      Received s es { s with shutdown := false, receiver := .exited }
  | next : s.receiver = .top → s.shutdown = false → Received s es { s with receiver := .length }
  | length : s.receiver = .length → Received s es (s.afterLength (readExact es s.stdout 4))
  | payload {len : ℕ} : s.receiver = .payload len →
      Received s es (s.afterPayload (readExact es s.stdout len))
  | drain {remaining : ℕ} : s.receiver = .drain remaining →
      Received s es (s.afterDrain remaining (readExact es s.stdout (min remaining receiverChunk)))
  | notify : s.receiver = .notify → Received s es { s with
      notified := if s.deathTx && !s.deathTxLocked then s.notified + 1 else s.notified
      receiver := .exited }

theorem received_of_receive (h : s.receive es = some s') : Received s es s' := by
  cases hreceiver : s.receiver with
  | top =>
    simp only [receive, hreceiver] at h
    split at h
    · rename_i hshutdown
      cases h
      exact .shutdown hreceiver hshutdown
    · rename_i hshutdown
      cases h
      exact .next hreceiver (Bool.eq_false_of_not_eq_true hshutdown)
  | length =>
    simp only [receive, hreceiver] at h
    rw [eq_of_read h]
    exact .length hreceiver
  | payload len =>
    simp only [receive, hreceiver] at h
    rw [eq_of_read h]
    exact .payload hreceiver
  | drain remaining =>
    simp only [receive, hreceiver] at h
    rw [eq_of_read h]
    exact .drain hreceiver
  | notify =>
    simp only [receive, hreceiver, Option.some.injEq] at h
    rw [← h]
    exact .notify hreceiver
  | exited => simp [receive, hreceiver] at h

/-- A step of the receiver leads on, or to a silent exit, or to one with a notification. -/
theorem receive_cases (h : s.receive es = some s') :
    (s'.receiver ≠ .exited ∧ s'.notified = s.notified ∧ s.speaks (.receive es) = true) ∨
      (s'.receiver = .exited ∧ s'.notified = s.notified ∧ s.speaks (.receive es) = false) ∨
      (s'.receiver = .exited ∧ s'.notified = s.notified + 1 ∧ s.speaks (.receive es) = true) := by
  cases received_of_receive h with
  | shutdown hreceiver hshutdown =>
    exact Or.inr (Or.inl ⟨rfl, rfl, by simp [speaks, hreceiver, hshutdown]⟩)
  | next hreceiver hshutdown =>
    exact Or.inl ⟨by simp, rfl, by simp [speaks, hreceiver, hshutdown]⟩
  | length hreceiver =>
    exact Or.inl ⟨receiver_afterLength, notified_afterLength, by simp [speaks, hreceiver]⟩
  | @payload len hreceiver =>
    have hspeaks : s.speaks (.receive es) = (readExact es s.stdout len).result.isOk := by
      simp [speaks, hreceiver]
    rw [hspeaks]
    cases hok : (readExact es s.stdout len).result.isOk with
    | true =>
      refine Or.inl ⟨fun hexited => ?_, notified_afterPayload, rfl⟩
      rw [receiver_afterPayload, hok] at hexited
      cases hexited
    | false =>
      exact Or.inr (Or.inl ⟨receiver_afterPayload.mpr hok, notified_afterPayload, rfl⟩)
  | drain hreceiver =>
    exact Or.inl ⟨receiver_afterDrain, notified_afterDrain, by simp [speaks, hreceiver]⟩
  | notify hreceiver =>
    have hspeaks : s.speaks (.receive es) = (s.deathTx && !s.deathTxLocked) := by
      simp [speaks, hreceiver]
    rw [hspeaks]
    cases hset : s.deathTx && !s.deathTxLocked with
    | false => exact Or.inr (Or.inl ⟨rfl, by simp, rfl⟩)
    | true => exact Or.inr (Or.inr ⟨rfl, by simp, rfl⟩)

/-- The receiver takes no step after its exit. -/
theorem receiver_of_receive (h : s.receive es = some s') : s.receiver ≠ .exited := by
  intro hreceiver
  simp [receive, hreceiver] at h

/-- Nobody else moves the receiver or sends a notification, and only the process that lives adds
to its stdout. -/
theorem step_of_not_isReceive (h : s.step a = some s') (ha : a.isReceive = false) :
    s'.receiver = s.receiver ∧ s'.notified = s.notified ∧ s.speaks a = true ∧
      (s.alive = false → s'.alive = false ∧ s'.stdout = s.stdout) := by
  cases a with
  | receive es => cases ha
  | write bytes =>
    simp only [step] at h
    split at h
    · rename_i halive
      cases h
      exact ⟨rfl, rfl, rfl, fun hdead => absurd halive (by rw [hdead]; simp)⟩
    · cases h
  | exit =>
    simp only [step] at h
    split at h <;> cases h
    exact ⟨rfl, rfl, rfl, fun _ => ⟨rfl, rfl⟩⟩
  | signal =>
    simp only [step] at h
    split at h <;> cases h
    exact ⟨rfl, rfl, rfl, fun hdead => ⟨hdead, rfl⟩⟩
  | kill =>
    simp only [step] at h
    split at h <;> cases h
    exact ⟨rfl, rfl, rfl, fun _ => ⟨rfl, rfl⟩⟩
  | lockDeathTx | setDeathTx =>
    simp only [step] at h
    split at h <;> cases h
    exact ⟨rfl, rfl, rfl, fun hdead => ⟨hdead, rfl⟩⟩

/-! ## The notification -/

/-- Before its exit the receiver has not been silent, and has sent nothing; after it, it has
sent a notification if it has not been silent. -/
structure Inv (tr : List (Process × Label)) (s : Process) : Prop where
  before : s.receiver ≠ .exited →
    s.notified = 0 ∧ Within (fun s a => s.speaks a = true) tr
  after : s.receiver = .exited →
    (0 < s.notified ↔ Within (fun s a => s.speaks a = true) tr)

theorem Inv.receive (h : Inv tr s) (hs : s.receive es = some s') :
    Inv ((s, .receive es) :: tr) s' := by
  obtain ⟨hzero, hwithin⟩ := h.before (receiver_of_receive hs)
  rcases receive_cases hs with ⟨hnot, hnotified, hspeaks⟩ | ⟨hexited, hnotified, hspeaks⟩ |
    ⟨hexited, hnotified, hspeaks⟩
  · exact ⟨fun _ => ⟨by rw [hnotified, hzero], within_cons.mpr ⟨hspeaks, hwithin⟩⟩,
      fun hexited => absurd hexited hnot⟩
  · refine ⟨fun hnot => absurd hexited hnot, fun _ => ?_⟩
    rw [hnotified, hzero, within_cons]
    refine iff_of_false (Nat.lt_irrefl 0) fun hcons => ?_
    rw [hspeaks] at hcons
    cases hcons.1
  · refine ⟨fun hnot => absurd hexited hnot, fun _ => ?_⟩
    rw [hnotified, within_cons]
    exact iff_of_true (Nat.succ_pos _) ⟨hspeaks, hwithin⟩

/-- The step lemma. -/
theorem Inv.step (h : Inv tr s) (hs : s.step a = some s') : Inv ((s, a) :: tr) s' := by
  cases ha : a.isReceive with
  | false =>
    obtain ⟨hreceiver, hnotified, hspeaks, -⟩ := step_of_not_isReceive hs ha
    constructor
    · intro hnot
      rw [hreceiver] at hnot
      obtain ⟨hzero, hwithin⟩ := h.before hnot
      exact ⟨by rw [hnotified, hzero], within_cons.mpr ⟨hspeaks, hwithin⟩⟩
    · intro hexited
      rw [hreceiver] at hexited
      rw [hnotified, h.after hexited, within_cons]
      exact ⟨fun hwithin => ⟨hspeaks, hwithin⟩, fun hwithin => hwithin.2⟩
  | true =>
    cases a with
    | receive es => exact h.receive hs
    | _ => cases ha

/-- The run lemma. -/
theorem inv_of_run {provider deathTx : Bool} (hrun : Run step (start provider deathTx) tr s) :
    Inv tr s := by
  refine hrun.traceInvariant (I := Inv) (G := fun _ _ => True) (fun _ _ => trivial) ?_ ?_
  · exact ⟨fun _ => ⟨rfl, within_nil _⟩, fun hexited => by cases hexited⟩
  · intro tr s a s' _ h _ hs
    exact h.step hs

/-! ## The exit -/

theorem fuel_afterLength (h : r.left.length + (if r.result.isOk then 4 else 0) ≤ s.stdout.length) :
    (s.afterLength r).fuel < 4 * s.stdout.length + 2 := by
  obtain ⟨result, left⟩ := r
  cases result with
  | ok bytes =>
    have hleft : left.length + 4 ≤ s.stdout.length := h
    have hrank : (s.afterLength ⟨.ok bytes, left⟩).receiver.rank = 4 := by
      simp only [afterLength]
      split <;> rfl
    show 4 * left.length + _ < _
    rw [hrank]
    omega
  | error e =>
    have hleft : left.length + 0 ≤ s.stdout.length := h
    show 4 * left.length + 1 < _
    omega

theorem fuel_afterPayload (h : r.left.length ≤ s.stdout.length) :
    (s.afterPayload r).fuel < 4 * s.stdout.length + 4 := by
  obtain ⟨result, left⟩ := r
  have hleft : left.length ≤ s.stdout.length := h
  cases result with
  | ok payload =>
    show 4 * left.length + 3 < _
    omega
  | error e =>
    show 4 * left.length + 0 < _
    omega

theorem fuel_afterDrain
    (h : r.left.length + (if r.result.isOk then min remaining receiverChunk else 0) ≤
      s.stdout.length) :
    (s.afterDrain remaining r).fuel < 4 * s.stdout.length + 4 := by
  obtain ⟨result, left⟩ := r
  cases result with
  | ok bytes =>
    have hleft : left.length + min remaining receiverChunk ≤ s.stdout.length := h
    show 4 * left.length + ReceiverPc.rank (if _ then _ else _) < _
    split
    · show 4 * left.length + 3 < _
      omega
    · show 4 * left.length + 4 < _
      unfold receiverChunk at *
      omega
  | error e =>
    have hleft : left.length + 0 ≤ s.stdout.length := h
    show 4 * left.length + 3 < _
    omega

/-- Each step brings the receiver nearer to its exit. -/
theorem fuel_lt_of_receive (h : s.receive es = some s') : s'.fuel < s.fuel := by
  show s'.fuel < 4 * s.stdout.length + s.receiver.rank
  cases received_of_receive h with
  | shutdown hreceiver =>
    rw [hreceiver]
    exact Nat.add_lt_add_left (by decide : (0 : ℕ) < 3) _
  | next hreceiver =>
    rw [hreceiver]
    exact Nat.add_lt_add_left (by decide : (2 : ℕ) < 3) _
  | length hreceiver =>
    rw [hreceiver]
    exact fuel_afterLength (length_left_readExact es s.stdout 4)
  | @payload len hreceiver =>
    rw [hreceiver]
    exact fuel_afterPayload
      (Nat.le_trans (Nat.le_add_right _ _) (length_left_readExact es s.stdout len))
  | @drain remaining hreceiver =>
    rw [hreceiver]
    exact fuel_afterDrain (length_left_readExact es s.stdout (min remaining receiverChunk))
  | notify hreceiver =>
    rw [hreceiver]
    exact Nat.lt_succ_self _

theorem alive_of_receive (h : s.receive es = some s') : s'.alive = s.alive := by
  cases received_of_receive h with
  | shutdown | next => rfl
  | length => exact alive_afterLength
  | payload => exact alive_afterPayload
  | drain => exact alive_afterDrain
  | notify => rfl

/-- The receiver of a dead process never blocks. -/
theorem isSome_receive (hdead : s.alive = false) (hnot : s.receiver ≠ .exited) :
    (s.receive es).isSome = true := by
  cases hreceiver : s.receiver with
  | top =>
    simp only [receive, hreceiver]
    split <;> rfl
  | length | payload len | drain remaining =>
    simp only [receive, hreceiver]
    exact isSome_read hdead
  | notify => simp [receive, hreceiver]
  | exited => exact absurd hreceiver hnot

/-- A dead process stays dead, and nobody gives its receiver more to do. -/
theorem dead_step (hdead : s.alive = false) (h : s.step a = some s') :
    s'.alive = false ∧ s'.fuel + (if a.isReceive then 1 else 0) ≤ s.fuel := by
  cases ha : a.isReceive with
  | true =>
    cases a with
    | receive es =>
      have hreceive : s.receive es = some s' := h
      exact ⟨by rw [alive_of_receive hreceive, hdead], fuel_lt_of_receive hreceive⟩
    | _ => cases ha
  | false =>
    obtain ⟨hreceiver, -, -, hrest⟩ := step_of_not_isReceive h ha
    obtain ⟨hdead', hstdout⟩ := hrest hdead
    refine ⟨hdead', ?_⟩
    rw [fuel, fuel, hreceiver, hstdout]
    exact Nat.le_refl _

/-- What holds of a dead process holds to the end. -/
theorem dead_run (hdead : s.alive = false) (hrun : Run step s tr s') :
    s'.alive = false ∧ s'.fuel + tr.countP (fun e => e.2.isReceive) ≤ s.fuel := by
  induction hrun with
  | nil => exact ⟨hdead, Nat.le_refl _⟩
  | snoc _ hs ih =>
    obtain ⟨hdead', hle⟩ := ih
    obtain ⟨hdead'', hstep⟩ := dead_step hdead' hs
    refine ⟨hdead'', ?_⟩
    simp only [List.countP_cons]
    omega

theorem exits_of_dead (hdead : s.alive = false) : s.Exits := by
  intro post s' hrun
  obtain ⟨hdead', hle⟩ := dead_run hdead hrun
  refine ⟨by omega, ?_⟩
  by_cases hexited : s'.receiver = .exited
  · exact Or.inl hexited
  · exact Or.inr fun es => isSome_receive hdead' hexited

/-- However a process ends, its receiver gets to its exit; and then a death notification has
been sent if and only if none of the silent exits was taken. -/
theorem notified_iff (provider deathTx : Bool) (tr : List (Process × Label)) (s : Process)
    (hrun : Run step (start provider deathTx) tr s) (hdead : s.alive = false) :
    s.Exits ∧ (s.receiver = .exited →
      (0 < s.notified ↔ Within (fun s a => s.speaks a = true) tr)) :=
  ⟨exits_of_dead hdead, (inv_of_run hrun).after⟩

end Steps

end Process

/-! ## Silent exits -/

namespace Sample

/-- The receiver reads a message, then the process exits. -/
def crash : List Process.Label :=
  [.lockDeathTx, .setDeathTx, .write [1, 0, 0, 0, 7], .receive [], .receive [.chunk 1],
    .receive [.interrupted], .receive [], .exit, .receive [], .receive []]

/-- The process exits, but there is no channel to the manager. -/
def noProvider : List Process.Label := [.receive [], .exit, .receive [], .receive []]

/-- A command has timed out, while the receiver was with an earlier response. -/
def timeoutKill : List Process.Label :=
  [.lockDeathTx, .setDeathTx, .write [1, 0, 0, 0, 7], .receive [], .receive [], .signal, .kill,
    .receive [], .receive []]

/-- The process exits within a response. -/
def truncated : List Process.Label :=
  [.lockDeathTx, .setDeathTx, .write [5, 0, 0, 0, 7], .receive [], .receive [], .exit, .receive []]

end Sample

namespace Process

theorem notified_after_crash :
    ∃ tr s, Run step (start true false) tr s ∧ s.alive = false ∧ s.Exits ∧
      s.receiver = .exited ∧ 0 < s.notified := by
  obtain ⟨tr, s, hrun, hdead, hexited, hspeaks⟩ := exists_run step (start true false) Sample.crash
    (fun tr s => s.alive = false ∧ s.receiver = .exited ∧ Within (fun s a => speaks s a = true) tr)
    (by decide)
  obtain ⟨hexits, hiff⟩ := notified_iff true false tr s hrun hdead
  exact ⟨tr, s, hrun, hdead, hexits, hexited, (hiff hexited).mpr hspeaks⟩

/-- A process that has ended, and whose receiver has left, without a notification. -/
def silent (r : List (Process × Label) × Process) : Bool :=
  !r.2.alive && decide (r.2.receiver = .exited) && decide (r.2.notified = 0)

theorem silent_deaths :
    (∃ tr s, Run step (start false false) tr s ∧ silent (tr, s) = true ∧
      tr.map Prod.snd = Sample.noProvider.reverse) ∧
    (∃ tr s, Run step (start true false) tr s ∧ silent (tr, s) = true ∧
      tr.map Prod.snd = Sample.timeoutKill.reverse) ∧
    ∃ tr s, Run step (start true false) tr s ∧ silent (tr, s) = true ∧
      tr.map Prod.snd = Sample.truncated.reverse := by
  refine ⟨?_, ?_, ?_⟩
  · exact exists_run _ _ Sample.noProvider _ (by decide)
  · exact exists_run _ _ Sample.timeoutKill _ (by decide)
  · exact exists_run _ _ Sample.truncated _ (by decide)

end Process

end HeraMind.Ipc
